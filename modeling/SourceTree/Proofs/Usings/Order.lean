import Mathlib.Data.Bool.Basic
import Mathlib.Data.Prod.Lex
import Mathlib.Data.String.Basic
import SourceTree.Usings
import SourceTree.Proofs.Fields

/-!
Using directives in order. Keys are compared by rank: plain before static, `System` and what
lies below it before the rest, then by name. Sorting a list of directives puts it in order.
Normalizing it leaves one for each key, in strictly increasing order, and leaves a list alone
that is so already.
-/
namespace SourceTree

/-! ### Ranks -/

namespace UsingKey

/-- Compared from left to right, where `false` comes before `true`. -/
def rank (key : UsingKey) : Bool ×ₗ Bool ×ₗ String :=
  toLex (key.static, toLex (!isSystem key.name, key.name))

theorem rank_injective : Function.Injective rank := by
  intro a b h
  obtain ⟨static, name⟩ := a
  obtain ⟨static', name'⟩ := b
  simp only [rank, EmbeddingLike.apply_eq_iff_eq, Prod.mk.injEq] at h
  rw [h.1, h.2.2]

theorem less_iff {a b : UsingKey} : a.less b = true ↔ a.rank < b.rank := by
  obtain ⟨static, name⟩ := a
  obtain ⟨static', name'⟩ := b
  simp only [less, rank, Prod.Lex.toLex_lt_toLex]
  cases static <;> cases static' <;> cases isSystem name <;> cases isSystem name' <;> simp

theorem less_of_not_less {a b : UsingKey} (hne : a ≠ b) (h : ¬ a.less b = true) :
    b.less a = true := by
  rw [less_iff] at h ⊢
  exact lt_of_le_of_ne (not_lt.mp h) fun heq => hne (rank_injective heq.symm)

theorem not_less_of_less {a b : UsingKey} (h : a.less b = true) : b.less a = false := by
  rw [Bool.eq_false_iff, Ne, less_iff]
  exact (less_iff.mp h).asymm

end UsingKey

/-! ### Keys -/

theorem Node.exists_usingKey {node : Node} (h : node.kind = .usingDirective) :
    ∃ key, node.usingKey? = some key := by
  cases node with
  | mk info kind slots =>
    obtain rfl : kind = .usingDirective := h
    obtain ⟨keyword, hkeyword⟩ := slots.exists_get? ⟨"static_keyword", .optToken⟩ (by decide)
    obtain ⟨name, hname⟩ := slots.exists_get? ⟨"name", .node⟩ (by decide)
    refine ⟨⟨keyword.toToken?.isSome, name.toNode.nameText⟩, ?_⟩
    simp only [Node.usingKey?, Node.kind, if_true, Node.get?, Node.slots, hkeyword, hname]

mutual

theorem Node.nameText_bare : (node : Node) → node.bare.nameText = node.nameText
  | .mk info kind slots => by
    have htokens : slots.bare.tokens.map Token.text = slots.tokens.map Token.text := by
      have h := Node.tokens_bare (.mk info kind slots)
      simp only [Node.bare, Node.tokens] at h
      rw [h, List.map_map]
      exact List.map_congr_left fun token _ => by cases token; rfl
    rw [Node.bare, Node.nameText, Node.nameText, Slots.nameTexts_bare slots, htokens]

theorem Slots.nameTexts_bare : {fields : List Field} → (slots : Slots fields) →
    slots.bare.nameTexts = slots.nameTexts
  | _, .nil => rfl
  | _, .cons slot rest => by
    rw [Slots.bare, Slots.nameTexts, Slots.nameTexts, Slot.nameTexts_bare slot,
      Slots.nameTexts_bare rest]

theorem Slot.nameTexts_bare : {shape : Shape} → (slot : Slot shape) →
    slot.bare.nameTexts = slot.nameTexts
  | _, .node child => by rw [Slot.bare, Slot.nameTexts, Slot.nameTexts, Node.nameText_bare child]
  | _, .optNode none => rfl
  | _, .optNode (some _) => rfl
  | _, .token _ => rfl
  | _, .optToken none => rfl
  | _, .optToken (some _) => rfl
  | _, .nodes _ => rfl
  | _, .tokens _ => rfl
  | _, .separated _ => rfl

end

theorem Slot.isSome_toToken?_bare (slot : Slot .optToken) :
    slot.bare.toToken?.isSome = slot.toToken?.isSome := by
  cases slot with
  | optToken token => cases token <;> rfl

theorem Slot.nameText_toNode_bare (slot : Slot .node) :
    slot.bare.toNode.nameText = slot.toNode.nameText := by
  cases slot with
  | node child => exact child.nameText_bare

theorem Node.kind_bare (node : Node) : node.bare.kind = node.kind := by
  cases node
  rfl

/-- Labels, metadata and trivia have no part in keys. -/
theorem Node.usingKey?_bare (node : Node) : node.bare.usingKey? = node.usingKey? := by
  cases node with
  | mk info kind slots =>
    rw [Node.bare, Node.usingKey?, Node.usingKey?]
    simp only [Node.kind, Node.get?, Node.slots, Slots.get?_bare]
    cases slots.get? ⟨"static_keyword", .optToken⟩ with
    | none => rfl
    | some keyword =>
      cases slots.get? ⟨"name", .node⟩ with
      | none => rfl
      | some name =>
        simp only [Option.map_some, Slot.isSome_toToken?_bare, Slot.nameText_toNode_bare]
        rfl

namespace Usings

/-! ### Lists in order -/

/-- Using directives and nothing else. -/
def areDirectives (usings : List Node) : Bool :=
  usings.all fun entry => entry.kind == .usingDirective

/-- Using directives and nothing else, with strictly increasing keys. -/
def areIncreasing (usings : List Node) : Bool :=
  areDirectives usings &&
    decide ((usings.filterMap Node.usingKey?).Pairwise fun a b => a.rank < b.rank)

/-- The keys of the using directives do not decrease, whatever stands between them. -/
def areOrdered (usings : List Node) : Bool :=
  decide ((usings.filterMap Node.usingKey?).Pairwise fun a b => a.rank ≤ b.rank)

theorem areDirectives_eq_of_kinds {usings others : List Node}
    (h : usings.map Node.kind = others.map Node.kind) :
    areDirectives usings = areDirectives others := by
  have hall : ∀ entries,
      areDirectives entries = (entries.map Node.kind).all (· == .usingDirective) :=
    fun entries => by rw [areDirectives, List.all_map]; rfl
  rw [hall, hall, h]

theorem exists_key_of_mem {usings : List Node} (h : areDirectives usings = true) {entry : Node}
    (hmem : entry ∈ usings) : ∃ key, entry.usingKey? = some key :=
  Node.exists_usingKey (beq_iff_eq.mp (List.all_eq_true.mp h entry hmem))

theorem less_of_keys {a b : Node} {ka kb : UsingKey} (ha : a.usingKey? = some ka)
    (hb : b.usingKey? = some kb) : less a b = ka.less kb := by
  rw [less, ha, hb]

theorem exists_keys_of_less {a b : Node} (h : less a b = true) :
    ∃ ka kb, a.usingKey? = some ka ∧ b.usingKey? = some kb ∧ ka.less kb = true := by
  rw [less] at h
  split at h
  · rename_i ka kb ha hb
    exact ⟨ka, kb, ha, hb, h⟩
  · cases h

theorem less_eq_false_iff {a b : Node} :
    less a b = false ↔
      ∀ kb, b.usingKey? = some kb → ∀ ka, a.usingKey? = some ka → kb.rank ≤ ka.rank := by
  constructor
  · intro h kb hb ka ha
    rw [less_of_keys ha hb, Bool.eq_false_iff, Ne, UsingKey.less_iff] at h
    exact not_lt.mp h
  · intro h
    rw [Bool.eq_false_iff]
    intro hless
    obtain ⟨ka, kb, ha, hb, hrank⟩ := exists_keys_of_less hless
    exact not_lt.mpr (h kb hb ka ha) (UsingKey.less_iff.mp hrank)

theorem areOrdered_iff {usings : List Node} :
    areOrdered usings = true ↔ usings.Pairwise fun a b => less b a = false := by
  simp only [areOrdered, decide_eq_true_iff, List.pairwise_filterMap, less_eq_false_iff]

theorem not_less_of_less {a b : Node} (h : less a b = true) : less b a = false := by
  obtain ⟨ka, kb, ha, hb, hless⟩ := exists_keys_of_less h
  rw [less_of_keys hb ha]
  exact UsingKey.not_less_of_less hless

theorem ne_key_of_less {a b : Node} (h : less a b = true) : a.usingKey? ≠ b.usingKey? := by
  obtain ⟨ka, kb, ha, hb, hless⟩ := exists_keys_of_less h
  rw [ha, hb]
  rintro heq
  obtain rfl := Option.some.inj heq
  exact lt_irrefl _ (UsingKey.less_iff.mp hless)

theorem areIncreasing_iff {usings : List Node} :
    areIncreasing usings = true ↔
      areDirectives usings = true ∧ usings.Pairwise fun a b => less a b = true := by
  rw [areIncreasing, Bool.and_eq_true, decide_eq_true_iff, List.pairwise_filterMap]
  refine and_congr_right fun h => List.Pairwise.iff_of_mem fun {a b} hamem hbmem => ?_
  obtain ⟨ka, ha⟩ := exists_key_of_mem h hamem
  obtain ⟨kb, hb⟩ := exists_key_of_mem h hbmem
  simp only [less_of_keys ha hb, ha, hb, UsingKey.less_iff, Option.some.injEq, forall_eq']

/-- In a list that is in order, different keys increase. -/
theorem areIncreasing_of_ordered {usings : List Node} (h : areDirectives usings = true)
    (hordered : areOrdered usings = true)
    (hkeys : usings.Pairwise fun a b => a.usingKey? ≠ b.usingKey?) :
    areIncreasing usings = true := by
  refine areIncreasing_iff.mpr ⟨h, ((areOrdered_iff.mp hordered).and hkeys).imp_of_mem ?_⟩
  rintro a b hamem hbmem ⟨hnot, hne⟩
  obtain ⟨ka, ha⟩ := exists_key_of_mem h hamem
  obtain ⟨kb, hb⟩ := exists_key_of_mem h hbmem
  rw [less_of_keys hb ha] at hnot
  rw [less_of_keys ha hb]
  refine UsingKey.less_of_not_less (fun heq => hne ?_) (by simp [hnot])
  rw [ha, hb, heq]

theorem areIncreasing_bareNodes (usings : List Node) :
    areIncreasing (bareNodes usings) = areIncreasing usings := by
  have hkeys : (Node.usingKey? ∘ Node.bare) = Node.usingKey? := funext Node.usingKey?_bare
  have hkind : ((fun entry : Node => entry.kind == .usingDirective) ∘ Node.bare) =
      fun entry => entry.kind == .usingDirective :=
    funext fun node => by rw [Function.comp, node.kind_bare]
  rw [areIncreasing, areIncreasing, areDirectives, areDirectives, bareNodes_eq_map, List.all_map,
    List.filterMap_map, hkeys, hkind]

/-! ### One directive for each key -/

theorem dedupeFrom_sublist (seen : List UsingKey) (usings : List Node) :
    (dedupeFrom seen usings).Sublist usings := by
  induction usings generalizing seen with
  | nil => exact .refl _
  | cons entry rest ih =>
    rw [dedupeFrom]
    split
    · exact (ih seen).cons_cons entry
    · split
      · exact (ih seen).cons entry
      · exact (ih _).cons_cons entry

/-- What is left has keys of its own. -/
theorem pairwise_dedupeFrom (seen : List UsingKey) {usings : List Node}
    (h : areDirectives usings = true) :
    (dedupeFrom seen usings).Pairwise (fun a b => a.usingKey? ≠ b.usingKey?) ∧
      ∀ entry ∈ dedupeFrom seen usings, ∀ key ∈ seen, entry.usingKey? ≠ some key := by
  induction usings generalizing seen with
  | nil => exact ⟨.nil, List.forall_mem_nil _⟩
  | cons entry rest ih =>
    obtain ⟨key, hkey⟩ := exists_key_of_mem h List.mem_cons_self
    have hrest : areDirectives rest = true := (Bool.and_eq_true_iff.mp h).2
    simp only [dedupeFrom, hkey]
    split
    · exact ih seen hrest
    · rename_i hnew
      obtain ⟨hpairwise, hseen⟩ := ih (key :: seen) hrest
      refine ⟨List.pairwise_cons.mpr ⟨fun other ho heq => ?_, hpairwise⟩, ?_⟩
      · exact hseen other ho key List.mem_cons_self (heq ▸ hkey)
      · intro other ho old hold heq
        rcases List.mem_cons.mp ho with rfl | ho
        · obtain rfl := Option.some.inj (hkey.symm.trans heq)
          exact hnew hold
        · exact hseen other ho old (List.mem_cons_of_mem _ hold) heq

theorem dedupeFrom_eq_self {seen : List UsingKey} {usings : List Node}
    (h : usings.Pairwise fun a b => a.usingKey? ≠ b.usingKey?)
    (hseen : ∀ entry ∈ usings, ∀ key ∈ seen, entry.usingKey? ≠ some key) :
    dedupeFrom seen usings = usings := by
  induction usings generalizing seen with
  | nil => rfl
  | cons entry rest ih =>
    obtain ⟨hfirst, hrest⟩ := List.pairwise_cons.mp h
    have hold := fun other ho => hseen other (List.mem_cons_of_mem entry ho)
    rw [dedupeFrom]
    split
    · rw [ih hrest hold]
    · rename_i key hkey
      have hnew : key ∉ seen := fun hmem => hseen entry List.mem_cons_self key hmem hkey
      rw [if_neg hnew, ih hrest]
      intro other ho old hmem
      rcases List.mem_cons.mp hmem with rfl | hmem
      · rw [← hkey]
        exact (hfirst other ho).symm
      · exact hold other ho old hmem

/-! ### Sorting -/

theorem insertBack_perm (x : Node) (sorted : List Node) :
    (insertBack x sorted).Perm (x :: sorted) := by
  induction sorted with
  | nil => exact .refl _
  | cons y rest ih =>
    rw [insertBack]
    split
    · exact (ih.cons y).trans (.swap x y rest)
    · exact .refl _

/-- Insertion keeps a reversed list of directives in order. -/
theorem pairwise_insertBack {x : Node} {sorted : List Node}
    (h : areDirectives (x :: sorted) = true)
    (hsorted : sorted.Pairwise fun a b => less a b = false) :
    (insertBack x sorted).Pairwise fun a b => less a b = false := by
  induction sorted with
  | nil => exact List.pairwise_singleton _ _
  | cons y rest ih =>
    obtain ⟨hfirst, hrest⟩ := List.pairwise_cons.mp hsorted
    simp only [areDirectives, List.all_cons, Bool.and_eq_true] at h ih
    rw [insertBack]
    split
    · rename_i hless
      refine List.pairwise_cons.mpr ⟨fun z hz => ?_, ih ⟨h.1, h.2.2⟩ hrest⟩
      rcases List.mem_cons.mp ((insertBack_perm x rest).mem_iff.mp hz) with rfl | hz
      · exact not_less_of_less hless
      · exact hfirst z hz
    · rename_i hnot
      rw [Bool.not_eq_true] at hnot
      refine List.pairwise_cons.mpr ⟨fun z hz => ?_, hsorted⟩
      rcases List.mem_cons.mp hz with rfl | hz
      · exact hnot
      · -- `y` is a directive, so it lies between the other two
        obtain ⟨ky, hy⟩ := Node.exists_usingKey (beq_iff_eq.mp h.2.1)
        rw [less_eq_false_iff]
        intro kz hkz kx hkx
        exact (less_eq_false_iff.mp (hfirst z hz) kz hkz ky hy).trans
          (less_eq_false_iff.mp hnot ky hy kx hkx)

theorem foldl_insertBack_perm (usings sorted : List Node) :
    (usings.foldl (fun sorted x => insertBack x sorted) sorted).Perm (usings ++ sorted) := by
  induction usings generalizing sorted with
  | nil => exact .refl _
  | cons x rest ih =>
    exact (ih _).trans (((insertBack_perm x sorted).append_left rest).trans List.perm_middle)

theorem areDirectives_of_perm {usings others : List Node} (h : usings.Perm others) :
    areDirectives usings = areDirectives others :=
  h.all_eq

theorem pairwise_foldl_insertBack {usings sorted : List Node}
    (h : areDirectives (usings ++ sorted) = true)
    (hsorted : sorted.Pairwise fun a b => less a b = false) :
    (usings.foldl (fun sorted x => insertBack x sorted) sorted).Pairwise
      fun a b => less a b = false := by
  induction usings generalizing sorted with
  | nil => exact hsorted
  | cons x rest ih =>
    have hmoved : (x :: rest ++ sorted).Perm (rest ++ x :: sorted) := List.perm_middle.symm
    rw [areDirectives_of_perm hmoved] at h
    have hrest : areDirectives (x :: sorted) = true := by
      rw [areDirectives, List.all_append, Bool.and_eq_true] at h
      exact h.2
    apply ih _ (pairwise_insertBack hrest hsorted)
    rwa [areDirectives_of_perm ((insertBack_perm x sorted).append_left rest)]

theorem sort_perm (usings : List Node) : (sort usings).Perm usings := by
  have hfold := foldl_insertBack_perm usings []
  rw [List.append_nil] at hfold
  exact (List.reverse_perm _).trans hfold

theorem areDirectives_sort (usings : List Node) :
    areDirectives (sort usings) = areDirectives usings :=
  areDirectives_of_perm (sort_perm usings)

/-- Sorting puts directives in order. -/
theorem areOrdered_sort {usings : List Node} (h : areDirectives usings = true) :
    areOrdered (sort usings) = true := by
  rw [areOrdered_iff, sort, List.pairwise_reverse]
  exact pairwise_foldl_insertBack (by rwa [List.append_nil]) .nil

/-- Each entry stays behind those before it. -/
theorem foldl_insertBack_of_increasing {usings sorted : List Node}
    (h : (sorted.reverse ++ usings).Pairwise fun a b => less a b = true) :
    usings.foldl (fun sorted x => insertBack x sorted) sorted = usings.reverse ++ sorted := by
  induction usings generalizing sorted with
  | nil => rfl
  | cons x rest ih =>
    have hstay : insertBack x sorted = x :: sorted := by
      cases sorted with
      | nil => rfl
      | cons y others =>
        have hless : less y x = true :=
          (List.pairwise_append.mp h).2.2 y (by simp) x List.mem_cons_self
        rw [insertBack, not_less_of_less hless, if_neg Bool.false_ne_true]
    rw [List.foldl_cons, hstay, ih, List.reverse_cons, List.append_assoc, List.singleton_append]
    rwa [List.reverse_cons, List.append_assoc, List.singleton_append]

theorem sort_eq_self {usings : List Node} (h : usings.Pairwise fun a b => less a b = true) :
    sort usings = usings := by
  have hfold : usings.foldl (fun sorted x => insertBack x sorted) [] = usings.reverse ++ [] :=
    foldl_insertBack_of_increasing h
  rw [sort, hfold, List.append_nil, List.reverse_reverse]

/-! ### Normalizing -/

theorem mem_of_mem_normalize {usings : List Node} {entry : Node} (h : entry ∈ normalize usings) :
    entry ∈ usings :=
  (dedupeFrom_sublist [] usings).subset ((sort_perm _).mem_iff.mp h)

theorem areDirectives_dedupe {usings : List Node} (h : areDirectives usings = true) :
    areDirectives (dedupe usings) = true :=
  List.all_eq_true.mpr fun entry hmem =>
    List.all_eq_true.mp h entry ((dedupeFrom_sublist [] usings).subset hmem)

theorem areIncreasing_normalize {usings : List Node} (h : areDirectives usings = true) :
    areIncreasing (normalize usings) = true := by
  have hdedupe := areDirectives_dedupe h
  have hkeys := (pairwise_dedupeFrom [] h).1
  refine areIncreasing_of_ordered ((areDirectives_sort _).trans hdedupe)
    (areOrdered_sort hdedupe) ?_
  exact ((sort_perm _).pairwise_iff fun hne => hne.symm).mpr hkeys

theorem normalize_eq_self {usings : List Node} (h : areIncreasing usings = true) :
    normalize usings = usings := by
  have hless := (areIncreasing_iff.mp h).2
  rw [normalize, dedupe, dedupeFrom_eq_self (hless.imp ne_key_of_less) (by simp),
    sort_eq_self hless]

end Usings

end SourceTree
