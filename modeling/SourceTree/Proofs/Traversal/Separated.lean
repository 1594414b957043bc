import SourceTree.Build.Leaf
import SourceTree.Proofs.Traversal.Sharing
import SourceTree.View

/-!
Walks of separated lists. A list fits when it has one separator fewer than elements, or as
many. New lists fit, and appending to a list that fits gives one that fits. A walk visits
elements and separators in document order and leaves the removed ones out. As long as no
separator is removed, what is left of a list that fits does so too. A removed separator leaves
no gap: the separators behind it move up. Document order shows exactly then what each element
was followed by, when no element without a separator comes before one that has one.
-/
namespace SourceTree

namespace Separated

variable {α β : Type}

/-! ### Lists that fit -/

theorem fits_iff {list : Separated α β} :
    list.Fits ↔ list.separators.length ≤ list.elements.length ∧
      list.elements.length ≤ list.separators.length + 1 := by
  rw [Fits, ← List.length_eq_zero_iff, ← List.length_eq_zero_iff, Ne, ← List.length_eq_zero_iff]
  omega

instance (list : Separated α β) : Decidable list.Fits := decidable_of_iff _ fits_iff.symm

theorem hasTrailing_iff {list : Separated α β} :
    list.hasTrailing = true ↔
      list.elements ≠ [] ∧ list.elements.length ≤ list.separators.length := by
  simp [hasTrailing]

theorem fits_empty : (empty : Separated α β).Fits := .inl ⟨rfl, rfl⟩

theorem fits_joined (elements : List α) (separator : β) : (joined elements separator).Fits := by
  rw [fits_iff, elements_joined, joined, List.length_replicate]
  omega

theorem fits_push {list : Separated α β} (h : list.Fits) (element : α) (separator : β) :
    (list.push element separator).Fits := by
  rw [fits_iff] at h
  rw [fits_iff, push]
  by_cases htrailing : list.hasTrailing = true
  · obtain ⟨-, hle⟩ := hasTrailing_iff.mp htrailing
    simp only [htrailing, Bool.or_true, if_true, List.length_append, List.length_singleton]
    omega
  · by_cases hempty : list.elements = []
    · rw [hempty, List.length_nil] at h
      simp only [hempty, List.isEmpty_nil, Bool.true_or, if_true, List.nil_append,
        List.length_singleton]
      omega
    · have hlt : list.separators.length < list.elements.length := by
        rw [hasTrailing_iff, not_and] at htrailing
        exact Nat.lt_of_not_le (htrailing hempty)
      have hcond : (list.elements.isEmpty || list.hasTrailing) = false := by
        simp [hempty, htrailing]
      simp only [hcond, Bool.false_eq_true, if_false, List.length_append, List.length_singleton]
      omega

/-! ### Elements with their separators -/

/-- Each element that stays, with what became of the separator behind it. -/
def kept : List (Option α) → List (Option β) → List (α × Option β)
  | [], _ => []
  | element :: elements, separators =>
    (element.map fun element => (element, separators.head?.join)).toList ++
      kept elements separators.tail

theorem kept_some (element : α) (elements : List (Option α)) (separators : List (Option β)) :
    kept (some element :: elements) separators =
      (element, separators.head?.join) :: kept elements separators.tail := rfl

/-- Without a trailing separator before, the last element has none now. -/
def ended (list : Separated α β) (pairs : List (α × Option β)) : List (α × Option β) :=
  if list.hasTrailing then pairs else openEnd pairs

/-- Each element and then its own separator, where it has one. -/
def spread (pairs : List (α × Option β)) : List (α ⊕ β) :=
  pairs.flatMap fun pair => .inl pair.1 :: pair.2.toList.map .inr

theorem map_fst_kept (elements : List (Option α)) (separators : List (Option β)) :
    (kept elements separators).map Prod.fst = elements.filterMap id := by
  induction elements generalizing separators with
  | nil => rfl
  | cons element elements ih =>
    rw [kept, List.map_append, ih, List.filterMap_cons]
    cases element <;> rfl

theorem map_fst_ended (list : Separated α β) (pairs : List (α × Option β)) :
    (list.ended pairs).map Prod.fst = pairs.map Prod.fst := by
  rw [ended]
  split
  · rfl
  · exact map_fst_openEnd pairs

theorem length_elements_ended (list : Separated α β) (pairs : List (α × Option β)) :
    (ofPairs (list.ended pairs)).elements.length = pairs.length := by
  rw [ofPairs, map_fst_ended, List.length_map]

theorem filterMap_snd_openEnd (pairs : List (α × Option β)) :
    (openEnd pairs).filterMap Prod.snd = pairs.dropLast.filterMap Prod.snd := by
  induction pairs with
  | nil => rfl
  | cons pair pairs ih =>
    cases pairs with
    | nil => rfl
    | cons next rest =>
      rw [openEnd_cons pair (List.cons_ne_nil _ _), List.dropLast_cons_of_ne_nil
        (List.cons_ne_nil _ _), List.filterMap_cons, List.filterMap_cons, ih]

theorem filterMap_snd_ended (list : Separated α β) (pairs : List (α × Option β)) :
    (list.ended pairs).filterMap Prod.snd =
      (if list.hasTrailing then pairs else pairs.dropLast).filterMap Prod.snd := by
  rw [ended]
  split
  · rfl
  · exact filterMap_snd_openEnd pairs

theorem length_filterMap_snd {pairs : List (α × Option β)}
    (h : ∀ pair ∈ pairs, pair.2.isSome = true) :
    (pairs.filterMap Prod.snd).length = pairs.length := by
  rw [List.length_filterMap_eq_countP]
  exact List.countP_eq_length.mpr h

theorem exists_map_some {marks : List (Option β)} (h : none ∉ marks) :
    ∃ separators : List β, marks = separators.map some := by
  induction marks with
  | nil => exact ⟨[], rfl⟩
  | cons mark marks ih =>
    obtain ⟨separators, rfl⟩ := ih fun hmem => h (List.mem_cons_of_mem _ hmem)
    cases mark with
    | none => exact absurd List.mem_cons_self h
    | some separator => exact ⟨separator :: separators, rfl⟩

/-- Where there are separators enough, every element has one. -/
theorem isSome_of_mem_kept {elements : List (Option α)} {separators : List β}
    (h : elements.length ≤ separators.length) :
    ∀ pair ∈ kept elements (separators.map some), pair.2.isSome = true := by
  induction elements generalizing separators with
  | nil => exact List.forall_mem_nil _
  | cons element elements ih =>
    cases separators with
    | nil => simp at h
    | cons separator separators =>
      have hrest := ih (Nat.le_of_succ_le_succ h)
      cases element with
      | none => exact hrest
      | some element => exact List.forall_mem_cons.mpr ⟨rfl, hrest⟩

/-- Where one separator is missing, it is that of the last element. -/
theorem isSome_of_mem_dropLast_kept {elements : List (Option α)} {separators : List β}
    (h : elements.length ≤ separators.length + 1) :
    ∀ pair ∈ (kept elements (separators.map some)).dropLast, pair.2.isSome = true := by
  induction elements generalizing separators with
  | nil => exact List.forall_mem_nil _
  | cons element elements ih =>
    cases separators with
    | nil =>
      obtain rfl : elements = [] := List.length_eq_zero_iff.mp (by simpa using h)
      cases element <;> exact List.forall_mem_nil _
    | cons separator separators =>
      have hrest := ih (Nat.le_of_succ_le_succ h)
      cases element with
      | none => exact hrest
      | some element =>
        rw [List.map_cons, kept_some, List.head?_cons, List.tail_cons]
        cases hpairs : kept elements (separators.map some) with
        | nil => exact List.forall_mem_nil _
        | cons next rest =>
          rw [hpairs] at hrest
          exact List.forall_mem_cons.mpr ⟨rfl, hrest⟩

theorem snd_of_mem_kept_nil (elements : List (Option α)) :
    ∀ pair ∈ kept elements ([] : List (Option β)), pair.2 = none := by
  induction elements with
  | nil => exact List.forall_mem_nil _
  | cons element elements ih =>
    cases element with
    | none => exact ih
    | some element => exact List.forall_mem_cons.mpr ⟨rfl, ih⟩

section Ended

variable {list : Separated α β} {elements : List (Option α)} {separators : List β}
  (helements : elements.length = list.elements.length)
  (hseparators : separators.length = min list.elements.length list.separators.length)
include helements hseparators

theorem length_separators_of_trailing (htrailing : list.hasTrailing = true) :
    (ofPairs (list.ended (kept elements (separators.map some)))).separators.length =
      (kept elements (separators.map some)).length := by
  obtain ⟨-, hle⟩ := hasTrailing_iff.mp htrailing
  rw [ended, if_pos htrailing]
  exact length_filterMap_snd (isSome_of_mem_kept (by omega))

/-- What is left of a list that fits does so too. -/
theorem fits_ended (h : list.Fits) :
    (ofPairs (list.ended (kept elements (separators.map some)))).Fits := by
  rw [fits_iff, length_elements_ended]
  by_cases htrailing : list.hasTrailing = true
  · rw [length_separators_of_trailing helements hseparators htrailing]
    omega
  · have hsome : ∀ pair ∈ (kept elements (separators.map some)).dropLast, pair.2.isSome = true := by
      rw [fits_iff] at h
      exact isSome_of_mem_dropLast_kept (by omega)
    rw [ofPairs, filterMap_snd_ended, if_neg htrailing, length_filterMap_snd hsome,
      List.length_dropLast]
    omega

theorem hasTrailing_ended :
    (ofPairs (list.ended (kept elements (separators.map some)))).hasTrailing = true ↔
      list.hasTrailing = true ∧
        (ofPairs (list.ended (kept elements (separators.map some)))).elements ≠ [] := by
  rw [hasTrailing_iff, length_elements_ended]
  by_cases htrailing : list.hasTrailing = true
  · rw [length_separators_of_trailing helements hseparators htrailing]
    exact ⟨fun h => ⟨htrailing, h.1⟩, fun h => ⟨h.2, Nat.le_refl _⟩⟩
  · refine ⟨fun h => absurd h.2 (Nat.not_le_of_lt ?_), fun h => absurd h.1 htrailing⟩
    -- at least the last element has no separator
    have hpos := List.length_pos_iff.mpr h.1
    rw [length_elements_ended] at hpos
    calc (ofPairs (list.ended (kept elements (separators.map some)))).separators.length
        = ((kept elements (separators.map some)).dropLast.filterMap Prod.snd).length := by
          rw [ofPairs, filterMap_snd_ended, if_neg htrailing]
      _ ≤ (kept elements (separators.map some)).dropLast.length := List.length_filterMap_le _ _
      _ < (kept elements (separators.map some)).length := by rw [List.length_dropLast]; omega

end Ended

/-! ### Document order -/

/-- An element with a separator has only such elements before it. -/
def Filled (pairs : List (α × Option β)) : Prop :=
  pairs.Pairwise fun first second => second.2.isSome = true → first.2.isSome = true

/-- The separators of a list move up, so they are found behind their own elements just when
there is no gap. -/
theorem inOrder_ofPairs_iff (pairs : List (α × Option β)) :
    (ofPairs pairs).inOrder = spread pairs ↔ Filled pairs := by
  induction pairs with
  | nil => exact ⟨fun _ => .nil, fun _ => rfl⟩
  | cons pair pairs ih =>
    obtain ⟨element, separator⟩ := pair
    rw [Filled, List.pairwise_cons]
    cases separator with
    | some token =>
      have hcons : (ofPairs ((element, some token) :: pairs)).inOrder =
          .inl element :: .inr token :: (ofPairs pairs).inOrder := rfl
      have hspread : spread ((element, some token) :: pairs) =
          .inl element :: .inr token :: spread pairs := rfl
      rw [hcons, hspread, List.cons_inj_right, List.cons_inj_right, ih]
      exact ⟨fun h => ⟨fun _ _ _ => rfl, h⟩, And.right⟩
    | none =>
      have hspread : spread ((element, none) :: pairs) = .inl element :: spread pairs := rfl
      cases hseparators : pairs.filterMap Prod.snd with
      | nil =>
        -- no separator is left, so none can move
        have hcons : (ofPairs ((element, none) :: pairs)).inOrder =
            .inl element :: (ofPairs pairs).inOrder := by
          simp only [inOrder, ofPairs, List.map_cons, List.filterMap_cons, hseparators, interleave]
        have hnone : ∀ pair ∈ pairs, pair.2 = none := List.filterMap_eq_nil_iff.mp hseparators
        rw [hcons, hspread, List.cons_inj_right, ih]
        refine ⟨fun h => ⟨fun pair hpair hsome => ?_, h⟩, And.right⟩
        rw [hnone pair hpair] at hsome
        cases hsome
      | cons token rest =>
        -- the first separator of the others moves up to this element
        have hcons : (ofPairs ((element, none) :: pairs)).inOrder =
            .inl element :: .inr token :: interleave (pairs.map Prod.fst) rest := by
          simp only [inOrder, ofPairs, List.map_cons, List.filterMap_cons, hseparators, interleave]
        obtain ⟨pair, hpair, hsome⟩ :=
          List.mem_filterMap.mp
            (hseparators ▸ List.mem_cons_self : token ∈ pairs.filterMap Prod.snd)
        rw [hcons, hspread, List.cons_inj_right]
        constructor
        · intro h
          cases pairs with
          | nil => cases hpair
          | cons next others => cases (List.cons.inj h).1
        · rintro ⟨hfirst, -⟩
          have := hfirst pair hpair (by rw [hsome]; rfl)
          cases this

/-- Separators that all stay leave no gap. -/
theorem filled_kept (elements : List (Option α)) (separators : List β) :
    Filled (kept elements (separators.map some)) := by
  induction elements generalizing separators with
  | nil => exact .nil
  | cons element elements ih =>
    cases separators with
    | nil =>
      refine List.pairwise_of_forall_mem_list fun first _ second hsecond hsome => ?_
      rw [snd_of_mem_kept_nil _ second hsecond] at hsome
      cases hsome
    | cons separator separators =>
      cases element with
      | none => exact ih separators
      | some element => exact List.pairwise_cons.mpr ⟨fun _ _ _ => rfl, ih separators⟩

theorem mem_of_mem_openEnd {pairs : List (α × Option β)} {pair : α × Option β}
    (h : pair ∈ openEnd pairs) (hsome : pair.2.isSome = true) : pair ∈ pairs := by
  induction pairs with
  | nil => cases h
  | cons first pairs ih =>
    cases pairs with
    | nil =>
      obtain rfl : pair = (first.1, none) := List.mem_singleton.mp h
      cases hsome
    | cons next rest =>
      rw [openEnd_cons first (List.cons_ne_nil _ _)] at h
      rcases List.mem_cons.mp h with rfl | h
      · exact List.mem_cons_self
      · exact List.mem_cons_of_mem _ (ih h)

theorem Filled.openEnd {pairs : List (α × Option β)} (h : Filled pairs) :
    Filled (openEnd pairs) := by
  induction pairs with
  | nil => exact .nil
  | cons first pairs ih =>
    obtain ⟨hfirst, hrest⟩ := List.pairwise_cons.mp h
    cases pairs with
    | nil => exact List.pairwise_singleton _ _
    | cons next rest =>
      rw [openEnd_cons first (List.cons_ne_nil _ _)]
      refine List.pairwise_cons.mpr ⟨fun second hsecond hsome => ?_, ih hrest⟩
      exact hfirst second (mem_of_mem_openEnd hsecond hsome) hsome

theorem Filled.ended {pairs : List (α × Option β)} (h : Filled pairs) (list : Separated α β) :
    Filled (list.ended pairs) := by
  rw [Separated.ended]
  split
  · exact h
  · exact h.openEnd

end Separated

variable {σ α β γ : Type}

/-! ### Visits in document order -/

theorem Outcome.bind_assoc (outcome : Outcome σ α) (f : α → σ → Outcome σ β)
    (g : β → σ → Outcome σ γ) :
    (outcome.bind f).bind g = outcome.bind fun value state => (f value state).bind g := by
  cases outcome <;> rfl

theorem Outcome.bind_eq_done_iff {outcome : Outcome σ α} {f : α → σ → Outcome σ β} {value : β}
    {last : σ} :
    outcome.bind f = .done value last ↔
      ∃ first state, outcome = .done first state ∧ f first state = .done value last := by
  cases outcome with
  | done first state =>
    constructor
    · intro h
      exact ⟨first, state, rfl, h⟩
    · rintro ⟨_, _, hdone, h⟩
      cases hdone
      exact h
  | failed fault state =>
    constructor
    · intro h
      cases h
    · rintro ⟨_, _, hdone, _⟩
      cases hdone
  | starved =>
    constructor
    · intro h
      cases h
    · rintro ⟨_, _, hdone, _⟩
      cases hdone

/-- Visits each element and then the separator behind it, and tells what becomes of the
elements and of the separators. -/
def Visit.along (visit : Visit σ) :
    List Node → List Token → σ → Outcome σ (List (Option Node) × List (Option Token))
  | [], _, state => .done ([], []) state
  | element :: elements, [], state =>
    (visit .node element state).bind fun first state =>
      (visit.along elements [] state).bind fun rest state =>
        .done (first :: rest.1, rest.2) state
  | element :: elements, separator :: separators, state =>
    (visit .node element state).bind fun first state =>
      (visit .token separator state).bind fun mark state =>
        (visit.along elements separators state).bind fun rest state =>
          .done (first :: rest.1, mark :: rest.2) state

/-- Separators without an element in front of them are not visited. -/
theorem Visit.length_along {visit : Visit σ} {elements : List Node} {separators : List Token}
    {start last : σ} {visited : List (Option Node) × List (Option Token)}
    (h : visit.along elements separators start = .done visited last) :
    visited.1.length = elements.length ∧
      visited.2.length = min elements.length separators.length := by
  induction elements generalizing separators start visited with
  | nil =>
    cases h
    exact ⟨rfl, (Nat.zero_min _).symm⟩
  | cons element elements ih =>
    cases separators with
    | nil =>
      obtain ⟨first, second, -, h⟩ := Outcome.bind_eq_done_iff.mp h
      obtain ⟨rest, third, hrest, h⟩ := Outcome.bind_eq_done_iff.mp h
      cases h
      obtain ⟨helements, hmarks⟩ := ih hrest
      rw [List.length_nil, Nat.min_zero] at hmarks ⊢
      exact ⟨congrArg (· + 1) helements, hmarks⟩
    | cons separator separators =>
      obtain ⟨first, second, -, h⟩ := Outcome.bind_eq_done_iff.mp h
      obtain ⟨mark, third, -, h⟩ := Outcome.bind_eq_done_iff.mp h
      obtain ⟨rest, fourth, hrest, h⟩ := Outcome.bind_eq_done_iff.mp h
      cases h
      obtain ⟨helements, hmarks⟩ := ih hrest
      refine ⟨congrArg (· + 1) helements, ?_⟩
      rw [List.length_cons, List.length_cons, List.length_cons, Nat.add_min_add_right, hmarks]

theorem run_walkPairs_along (answer : Answer σ) (traversal : Traversal σ) (elements : List Node)
    (separators : List Token) (start : σ) :
    (walkPairs elements separators).run answer traversal start =
      (Visit.along (answer traversal .visit) elements separators start).bind fun visited state =>
        .done (Separated.kept visited.1 visited.2) state := by
  induction elements generalizing separators start with
  | nil => rfl
  | cons element elements ih =>
    cases separators with
    | nil =>
      simp only [walkPairs, Plan.run_seq, Visit.along, Outcome.bind_assoc, Outcome.bind_done,
        List.head?_nil, visitOptToken, Plan.run_pure, List.tail_nil, ih]
      rw [Plan.run_visit _ _ _ .node]
      congr 1
      funext first state
      cases hrest : Visit.along (answer traversal .visit) elements [] state with
      | done rest last =>
        obtain ⟨-, hmarks⟩ := Visit.length_along hrest
        have hnil : rest.2 = [] := List.length_eq_zero_iff.mp (by simpa using hmarks)
        simp only [Outcome.bind_done, hnil]
        rfl
      | failed fault last => rfl
      | starved => rfl
    | cons separator separators =>
      simp only [walkPairs, Plan.run_seq, Visit.along, Outcome.bind_assoc, Outcome.bind_done,
        List.head?_cons, visitOptToken, Plan.run_pure, List.tail_cons, ih]
      rw [Plan.run_visit _ _ _ .node]
      simp only [Plan.run_visit _ _ _ .token]
      rfl

namespace Traversal

/-- The walk of a separated list visits it in document order and keeps what is left. -/
theorem walk_separated_eq (traversal : Traversal σ) (fuel : Nat) (list : Separated Node Token)
    (start : σ) :
    traversal.walk (fuel + 1) .separated list start =
      (Visit.along (traversal.visit fuel) list.elements list.separators start).bind
        fun visited state =>
          .done (ofPairs (list.ended (Separated.kept visited.1 visited.2))) state := by
  change (walkSeparated list).run (answer fuel) traversal start = _
  rw [walkSeparated, Plan.run_seq, run_walkPairs_along, Outcome.bind_assoc]
  rfl

theorem walk_separated_done {traversal : Traversal σ} {fuel : Nat}
    {list result : Separated Node Token} {start last : σ}
    (h : traversal.walk (fuel + 1) .separated list start = .done result last) :
    ∃ elements separators,
      Visit.along (traversal.visit fuel) list.elements list.separators start =
        .done (elements, separators) last ∧
      result = ofPairs (list.ended (Separated.kept elements separators)) := by
  rw [walk_separated_eq] at h
  obtain ⟨⟨elements, separators⟩, state, halong, h⟩ := Outcome.bind_eq_done_iff.mp h
  cases h
  exact ⟨elements, separators, halong, rfl⟩

/-- Empty lists and lists joined by commas fit, lists that fit do so after an element was
appended, and also after a walk that removes no separator. Such a walk leaves the elements that
stay, each with its separator; the last of them has none unless the list ended in one. -/
theorem fits_walk_separated :
    (Separated.empty : Separated Node Token).Fits ∧
    (∀ elements, (Build.commaList elements).Fits) ∧
    (∀ (list : Separated Node Token) (element : Node) (separator : Token),
      list.Fits → (list.push element separator).Fits) ∧
    ∀ (traversal : Traversal σ) (fuel : Nat) (list result : Separated Node Token) (start last : σ),
      traversal.walk (fuel + 1) .separated list start = .done result last →
      ∃ elements separators,
        Visit.along (traversal.visit fuel) list.elements list.separators start =
          .done (elements, separators) last ∧
        (none ∉ separators →
          result.elements = elements.filterMap id ∧
          result.separators =
            (if list.hasTrailing then Separated.kept elements separators
              else (Separated.kept elements separators).dropLast).filterMap Prod.snd ∧
          (result.hasTrailing = true ↔ list.hasTrailing = true ∧ result.elements ≠ []) ∧
          (list.Fits → result.Fits)) := by
  refine ⟨Separated.fits_empty, fun elements => Separated.fits_joined _ _,
    fun list element separator h => Separated.fits_push h _ _, ?_⟩
  intro traversal fuel list result start last h
  obtain ⟨elements, separators, halong, rfl⟩ := walk_separated_done h
  refine ⟨elements, separators, halong, fun hkept => ?_⟩
  obtain ⟨helements, hseparators⟩ := Visit.length_along halong
  obtain ⟨tokens, rfl⟩ := Separated.exists_map_some hkept
  rw [List.length_map] at hseparators
  refine ⟨?_, Separated.filterMap_snd_ended _ _,
    Separated.hasTrailing_ended helements hseparators, Separated.fits_ended helements hseparators⟩
  rw [ofPairs, Separated.map_fst_ended, Separated.map_fst_kept]

def nameOf (text : String) : Node := .identifierName (.ofText .identifier text)

/-- Three names with the given separators between them. -/
def threeNames (first second : String) : Separated Node Token :=
  ⟨[nameOf "a", nameOf "b", nameOf "c"],
    [.ofText .punctuation first, .ofText .punctuation second]⟩

/-- Removes the nodes at which `p` holds and leaves the others as they are. -/
def removing (p : Node → Bool) : Traversal Unit :=
  empty.withHook .default fun node => pure (if p node then none else some node)

/-- Without its last element `a,b;c` is `a,b`. -/
theorem fits_walk_threeNames :
    (threeNames "," ";").Fits ∧
    ∃ result, (removing fun node => node.text == "c").walk 3 .separated (threeNames "," ";") () =
        .done result () ∧
      result.elements = [nameOf "a", nameOf "b"] ∧
      result.separators = [.ofText .punctuation ","] ∧
      result.hasTrailing = false ∧ result.Fits := by
  have hwalk : (removing fun node => node.text == "c").walk 3 .separated (threeNames "," ";") () =
      .done ⟨[nameOf "a", nameOf "b"], [.ofText .punctuation ","]⟩ () := rfl
  have hvisits : Visit.along ((removing fun node => node.text == "c").visit 2)
      (threeNames "," ";").elements (threeNames "," ";").separators () =
        .done ([some (nameOf "a"), some (nameOf "b"), none],
          [some (.ofText .punctuation ","), some (.ofText .punctuation ";")]) () := rfl
  obtain ⟨-, -, -, hpreserved⟩ := fits_walk_separated (σ := Unit)
  obtain ⟨elements, separators, halong, hkept⟩ := hpreserved _ _ _ _ _ _ hwalk
  cases hvisits.symm.trans halong
  obtain ⟨helements, hseparators, htrailing, hfits⟩ := hkept (by simp)
  exact ⟨by decide, _, hwalk, helements, hseparators,
    Bool.eq_false_iff.mpr fun h => absurd (htrailing.mp h).1 (by decide), hfits (by decide)⟩

/-- After a walk the separators that are left stand behind the elements that are left, from the
first on. Each follows its own element exactly when no element without a separator comes
before one with a separator; and that is so where no separator is removed. -/
theorem inOrder_walk_separated {traversal : Traversal σ} {fuel : Nat}
    {list result : Separated Node Token} {start last : σ}
    (h : traversal.walk (fuel + 1) .separated list start = .done result last) :
    ∃ elements separators pairs,
      Visit.along (traversal.visit fuel) list.elements list.separators start =
        .done (elements, separators) last ∧
      pairs = list.ended (Separated.kept elements separators) ∧
      result.inOrder = Separated.interleave (pairs.map Prod.fst) (pairs.filterMap Prod.snd) ∧
      (result.inOrder = Separated.spread pairs ↔ Separated.Filled pairs) ∧
      (none ∉ separators → result.inOrder = Separated.spread pairs) := by
  obtain ⟨elements, separators, halong, rfl⟩ := walk_separated_done h
  refine ⟨elements, separators, _, halong, rfl, rfl, Separated.inOrder_ofPairs_iff _, ?_⟩
  intro hkept
  obtain ⟨tokens, rfl⟩ := Separated.exists_map_some hkept
  exact (Separated.inOrder_ofPairs_iff _).mpr ((Separated.filled_kept elements tokens).ended list)

/-- Removes the commas. -/
def commaless : Traversal Unit :=
  empty.withHook .token fun token =>
    if token.text == "," then pure none else Plan.walk .token token

/-- From `a;b,c` the comma goes, and the semicolon stays behind `a`. -/
theorem inOrder_walk_lastSeparator :
    ∃ result, commaless.walk 5 .separated (threeNames ";" ",") () = .done result () ∧
      result.inOrder =
        [.inl (nameOf "a"), .inr (.ofText .punctuation ";"), .inl (nameOf "b"),
          .inl (nameOf "c")] := by
  have hwalk : commaless.walk 5 .separated (threeNames ";" ",") () =
      .done ⟨[nameOf "a", nameOf "b", nameOf "c"], [.ofText .punctuation ";"]⟩ () := rfl
  have hvisits : Visit.along (commaless.visit 4) (threeNames ";" ",").elements
      (threeNames ";" ",").separators () =
        .done ([some (nameOf "a"), some (nameOf "b"), some (nameOf "c")],
          [some (.ofText .punctuation ";"), none]) () := rfl
  obtain ⟨elements, separators, pairs, halong, rfl, -, hfilled, -⟩ := inOrder_walk_separated hwalk
  cases hvisits.symm.trans halong
  exact ⟨_, hwalk, hfilled.mpr (by simp [Separated.Filled, Separated.ended, threeNames,
    Separated.hasTrailing, Separated.kept, openEnd])⟩

/-- From `a,b;c` the comma goes. The semicolon followed `b`, but comes out behind `a`. -/
theorem inOrder_walk_movedSeparator :
    (threeNames "," ";").Fits ∧
    ∃ result, commaless.walk 5 .separated (threeNames "," ";") () = .done result () ∧
      Visit.along (commaless.visit 4) (threeNames "," ";").elements
          (threeNames "," ";").separators () =
        .done ([some (nameOf "a"), some (nameOf "b"), some (nameOf "c")],
          [none, some (.ofText .punctuation ";")]) () ∧
      result.inOrder.map (Sum.elim Node.text Token.text) = ["a", ";", "b", "c"] ∧
      result.inOrder ≠ Separated.spread ((threeNames "," ";").ended (Separated.kept
        [some (nameOf "a"), some (nameOf "b"), some (nameOf "c")]
        [none, some (.ofText .punctuation ";")])) := by
  refine ⟨by decide, ⟨[nameOf "a", nameOf "b", nameOf "c"], [.ofText .punctuation ";"]⟩, rfl, rfl,
    by decide, fun h => ?_⟩
  have htexts := congrArg (List.map (Sum.elim Node.text Token.text)) h
  exact absurd htexts (by decide)

end Traversal

end SourceTree
