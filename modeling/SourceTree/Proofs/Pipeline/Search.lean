import Mathlib.Algebra.BigOperators.Group.Finset.Piecewise
import Mathlib.Algebra.Order.BigOperators.Group.Finset
import Mathlib.Logic.Relation
import SourceTree.Pipeline.Graph

/-!
The search for cycles. A search keeps the vertices that it has discovered and not yet
finished on its stack, and each of them has a path to everything above it. So when a vertex
is finished, each of its successors was finished before it or has a path back to it. A vertex
is reported when it finished before a successor, or has an edge to itself: it lies on a cycle.
Where none is reported, the order in which vertices finish respects every edge.
-/
namespace SourceTree.Graph

variable {graph : Graph}

def Edge (graph : Graph) (u v : Nat) : Prop := (u, v) ∈ graph.edges

/-- One edge after another, at least one. -/
def Path (graph : Graph) : Nat → Nat → Prop := Relation.TransGen graph.Edge

def Acyclic (graph : Graph) : Prop := ∀ vertex, ¬ graph.Path vertex vertex

/-- Edges join vertices. -/
def Valid (graph : Graph) : Prop := ∀ u v, graph.Edge u v → u < graph.size ∧ v < graph.size

theorem mem_successors {u v : Nat} : v ∈ graph.successors u ↔ graph.Edge u v := by
  simp [successors, Edge]

theorem mem_predecessors {u v : Nat} : u ∈ graph.predecessors v ↔ graph.Edge u v := by
  simp [predecessors, Edge]

/-! ### Fuel -/

/-- What vertices that are not yet discovered can still cost: a step for each, and one for
each successor that it puts on the stack. -/
def pending (graph : Graph) (discovered : List Nat) : Nat :=
  ∑ vertex ∈ (Finset.range graph.size).filter (· ∉ discovered),
    ((graph.successors vertex).length + 1)

theorem pending_cons {vertex : Nat} {discovered : List Nat} (hlt : vertex < graph.size)
    (hnew : vertex ∉ discovered) :
    graph.pending (vertex :: discovered) + ((graph.successors vertex).length + 1) =
      graph.pending discovered := by
  have herase : (Finset.range graph.size).filter (· ∉ vertex :: discovered) =
      ((Finset.range graph.size).filter (· ∉ discovered)).erase vertex := by
    ext other
    simp only [Finset.mem_filter, Finset.mem_erase, Finset.mem_range, List.mem_cons, not_or]
    tauto
  have hmem : vertex ∈ (Finset.range graph.size).filter (· ∉ discovered) := by
    simp [hlt, hnew]
  rw [pending, herase]
  exact Finset.sum_erase_add _ _ hmem

/-- Every edge leaves one vertex. -/
theorem sum_successors_le (edges : List (Nat × Nat)) (size : Nat) :
    ∑ vertex ∈ Finset.range size, (edges.countP fun edge => edge.1 == vertex) ≤ edges.length := by
  induction edges with
  | nil => simp
  | cons edge edges ih =>
    simp only [List.countP_cons, Finset.sum_add_distrib, List.length_cons]
    have hone : ∑ vertex ∈ Finset.range size, (if (edge.1 == vertex) = true then 1 else 0) ≤ 1 := by
      simp only [beq_iff_eq, Finset.sum_ite_eq]
      split <;> omega
    omega

theorem pending_le (graph : Graph) (discovered : List Nat) :
    graph.pending discovered ≤ graph.edges.length + graph.size := by
  have hall : graph.pending discovered ≤
      ∑ vertex ∈ Finset.range graph.size, ((graph.successors vertex).length + 1) :=
    Finset.sum_le_sum_of_subset (Finset.filter_subset _ _)
  have hedges : ∑ vertex ∈ Finset.range graph.size, (graph.successors vertex).length ≤
      graph.edges.length := by
    have := sum_successors_le graph.edges graph.size
    simpa [successors, List.countP_eq_length_filter, List.filter_reverse] using this
  rw [Finset.sum_add_distrib, ← Finset.card_eq_sum_ones, Finset.card_range] at hall
  omega

/-! ### What a search keeps true -/

/-- What holds before and after every step. The place of a vertex on the stack is the
topmost one. -/
structure Search.Sound (graph : Graph) (search : Search) : Prop where
  stack_lt : ∀ vertex ∈ search.stack, vertex < graph.size
  discovered_lt : ∀ vertex ∈ search.discovered, vertex < graph.size
  mem_discovered : ∀ vertex ∈ search.finished, vertex ∈ search.discovered
  mem_stack : ∀ vertex ∈ search.discovered, vertex ∉ search.finished → vertex ∈ search.stack
  nodup : search.finished.Nodup
  /-- A vertex in progress has a path to all that is above it, and its successors are
  finished, above it, or have a path to it. -/
  above : ∀ above vertex below, search.stack = above ++ vertex :: below → vertex ∉ above →
    vertex ∈ search.discovered → vertex ∉ search.finished →
      (∀ other ∈ above, graph.Path vertex other) ∧
        ∀ next, graph.Edge vertex next →
          next ∈ search.finished ∨ next ∈ above ∨ graph.Path next vertex
  /-- A successor was finished before, or has a path back. -/
  after : ∀ before vertex after, search.finished = before ++ vertex :: after →
    ∀ next, graph.Edge vertex next → next ∈ after ∨ graph.Path next vertex

namespace Search.Sound

variable {search : Search} {vertex : Nat} {rest : List Nat}

/-- The vertices in progress have a path to a new vertex on top of them. -/
theorem path_top (h : search.Sound graph) (hstack : search.stack = vertex :: rest)
    (hnew : vertex ∉ search.discovered) {other : Nat} (hd : other ∈ search.discovered)
    (hf : other ∉ search.finished) : graph.Path other vertex := by
  obtain ⟨above, below, hsplit, hfirst⟩ := List.eq_append_cons_of_mem (h.mem_stack other hd hf)
  refine (h.above above other below hsplit hfirst hd hf).1 vertex ?_
  rw [hstack] at hsplit
  cases above with
  | nil =>
    obtain ⟨rfl, -⟩ := List.cons.inj hsplit
    exact absurd hd hnew
  | cons first above =>
    obtain ⟨rfl, -⟩ := List.cons.inj hsplit
    exact List.mem_cons_self

/-- A vertex on top of the stack that is in progress has nothing left to wait for. -/
theorem finish (h : search.Sound graph) (hstack : search.stack = vertex :: rest)
    (hd : vertex ∈ search.discovered) :
    Sound graph { search with stack := rest, finished := search.finished.insert vertex } := by
  constructor
  · intro other ho
    exact h.stack_lt other (hstack ▸ List.mem_cons_of_mem _ ho)
  · exact h.discovered_lt
  · intro other ho
    rcases List.mem_insert_iff.mp ho with rfl | ho
    · exact hd
    · exact h.mem_discovered other ho
  · intro other hod hof
    rw [List.mem_insert_iff, not_or] at hof
    have hmem := h.mem_stack other hod hof.2
    rw [hstack] at hmem
    exact (List.mem_cons.mp hmem).resolve_left hof.1
  · exact h.nodup.insert
  · intro above other below hsplit hnot hod hof
    rw [List.mem_insert_iff, not_or] at hof
    have hold : search.stack = (vertex :: above) ++ other :: below := by
      rw [hstack, List.cons_append, ← hsplit]
    have hnot' : other ∉ vertex :: above := by
      rw [List.mem_cons, not_or]
      exact ⟨hof.1, hnot⟩
    obtain ⟨hpaths, hnext⟩ := h.above (vertex :: above) other below hold hnot' hod hof.2
    refine ⟨fun x hx => hpaths x (List.mem_cons_of_mem _ hx), fun next hedge => ?_⟩
    rcases hnext next hedge with hf | ha | hp
    · exact .inl (List.mem_insert_of_mem hf)
    · rcases List.mem_cons.mp ha with rfl | ha
      · exact .inl List.mem_insert_self
      · exact .inr (.inl ha)
    · exact .inr (.inr hp)
  · intro before other after hsplit next hedge
    by_cases hv : vertex ∈ search.finished
    · rw [List.insert_of_mem hv] at hsplit
      exact h.after before other after hsplit next hedge
    · rw [List.insert_of_not_mem hv] at hsplit
      cases before with
      | nil =>
        obtain ⟨rfl, rfl⟩ := List.cons.inj hsplit
        obtain ⟨-, hnext⟩ := h.above [] vertex rest hstack (by simp) hd hv
        rcases hnext next hedge with hf | ha | hp
        · exact .inl hf
        · exact nomatch ha
        · exact .inr hp
      | cons first before =>
        obtain ⟨-, hsplit⟩ := List.cons.inj hsplit
        exact h.after before other after hsplit next hedge

/-- Where a vertex that is not pushed lies after a push: at the old top, or further down. -/
theorem split_of_pushed {pushed above below : List Nat} {other : Nat}
    (hsplit : pushed ++ vertex :: rest = above ++ other :: below) (hnew : other ∉ pushed) :
    (other = vertex ∧ above = pushed) ∨
      ∃ between, above = pushed ++ vertex :: between ∧ rest = between ++ other :: below := by
  rcases List.append_eq_append_iff.mp hsplit with ⟨more, habove, hrest⟩ | ⟨more, hpushed, hrest⟩
  · cases more with
    | nil =>
      obtain ⟨hv, -⟩ := List.cons.inj hrest
      rw [List.append_nil] at habove
      exact .inl ⟨hv.symm, habove⟩
    | cons first between =>
      obtain ⟨rfl, hbelow⟩ := List.cons.inj hrest
      exact .inr ⟨between, habove, hbelow⟩
  · cases more with
    | nil =>
      obtain ⟨hv, -⟩ := List.cons.inj hrest
      rw [List.append_nil] at hpushed
      exact .inl ⟨hv, hpushed.symm⟩
    | cons first between =>
      obtain ⟨rfl, -⟩ := List.cons.inj hrest
      exact absurd (hpushed ▸ List.mem_append_right _ List.mem_cons_self) hnew

/-- A new vertex stays on the stack, under those of its successors that are new as well. -/
theorem discover (h : search.Sound graph) (valid : graph.Valid)
    (hstack : search.stack = vertex :: rest) (hd : vertex ∉ search.discovered) :
    Sound graph { search with
      stack := ((graph.successors vertex).filter
        fun other => other ∉ vertex :: search.discovered).reverse ++ search.stack
      discovered := vertex :: search.discovered } := by
  have hpushed : ∀ other, other ∈ ((graph.successors vertex).filter
      fun other => other ∉ vertex :: search.discovered).reverse ↔
        graph.Edge vertex other ∧ other ∉ vertex :: search.discovered := by
    intro other
    simp [mem_successors]
  constructor
  · intro other ho
    rcases List.mem_append.mp ho with ho | ho
    · exact (valid vertex other ((hpushed other).mp ho).1).2
    · exact h.stack_lt other ho
  · intro other ho
    rcases List.mem_cons.mp ho with rfl | ho
    · exact h.stack_lt other (hstack ▸ List.mem_cons_self)
    · exact h.discovered_lt other ho
  · intro other ho
    exact List.mem_cons_of_mem _ (h.mem_discovered other ho)
  · intro other hod hof
    apply List.mem_append_right
    rcases List.mem_cons.mp hod with rfl | hod
    · exact hstack ▸ List.mem_cons_self
    · exact h.mem_stack other hod hof
  · exact h.nodup
  · intro above other below hsplit hnot hod hof
    have hnew : other ∉ ((graph.successors vertex).filter
        fun other => other ∉ vertex :: search.discovered).reverse :=
      fun ho => ((hpushed other).mp ho).2 hod
    simp only [hstack] at hsplit
    rcases split_of_pushed hsplit hnew with ⟨rfl, rfl⟩ | ⟨between, rfl, hrest⟩
    · refine ⟨fun x hx => .single ((hpushed x).mp hx).1, fun next hedge => ?_⟩
      by_cases hnd : next ∈ other :: search.discovered
      · rcases List.mem_cons.mp hnd with rfl | hnd
        · exact .inr (.inr (.single hedge))
        · by_cases hnf : next ∈ search.finished
          · exact .inl hnf
          · exact .inr (.inr (h.path_top hstack hd hnd hnf))
      · exact .inr (.inl ((hpushed next).mpr ⟨hedge, hnd⟩))
    · have hne : other ≠ vertex := by
        rintro rfl
        exact hnot (List.mem_append_right _ List.mem_cons_self)
      have hold : search.stack = (vertex :: between) ++ other :: below := by
        rw [hstack, hrest, List.cons_append]
      have hnot' : other ∉ vertex :: between := fun ho => hnot (List.mem_append_right _ ho)
      obtain ⟨hpaths, hnext⟩ := h.above (vertex :: between) other below hold hnot'
        ((List.mem_cons.mp hod).resolve_left hne) hof
      refine ⟨fun x hx => ?_, fun next hedge => ?_⟩
      · rcases List.mem_append.mp hx with hx | hx
        · exact .tail (hpaths vertex List.mem_cons_self) ((hpushed x).mp hx).1
        · exact hpaths x hx
      · rcases hnext next hedge with hf | ha | hp
        · exact .inl hf
        · exact .inr (.inl (List.mem_append_right _ ha))
        · exact .inr (.inr hp)
  · exact h.after

end Search.Sound

/-! ### Whole searches -/

/-- With enough fuel a search ends with an empty stack, and all that was on it is discovered. -/
theorem explore_ok (valid : graph.Valid) {fuel : Nat} {search result : Search}
    (h : search.Sound graph)
    (enough : search.stack.length + graph.pending search.discovered ≤ fuel)
    (hr : graph.explore fuel search = .ok result) :
    result.Sound graph ∧ result.stack = [] ∧
      ∀ vertex, vertex ∈ search.stack ∨ vertex ∈ search.discovered →
        vertex ∈ result.discovered := by
  induction fuel generalizing search with
  | zero =>
    obtain rfl : search = result := Except.ok.inj hr
    have hempty : search.stack = [] := List.length_eq_zero_iff.mp (by omega)
    refine ⟨h, hempty, fun vertex hv => hv.resolve_left ?_⟩
    simp [hempty]
  | succ fuel ih =>
    rw [explore] at hr
    cases hstack : search.stack with
    | nil =>
      simp only [hstack] at hr
      obtain rfl : search = result := Except.ok.inj hr
      exact ⟨h, hstack, fun vertex hv => hv.resolve_left (by simp)⟩
    | cons vertex rest =>
      simp only [hstack] at hr
      by_cases hd : vertex ∈ search.discovered
      · rw [if_pos hd, ← List.insert_eq_ite] at hr
        have hfuel : rest.length + graph.pending search.discovered ≤ fuel := by
          rw [hstack, List.length_cons] at enough
          omega
        obtain ⟨hsound, hempty, hall⟩ := ih (h.finish hstack hd) hfuel hr
        refine ⟨hsound, hempty, fun other ho => hall other ?_⟩
        rcases ho with ho | ho
        · rcases List.mem_cons.mp ho with rfl | ho
          · exact .inr hd
          · exact .inl ho
        · exact .inr ho
      · rw [if_neg hd] at hr
        split at hr
        · exact nomatch hr
        · have hlt := h.stack_lt vertex (hstack ▸ List.mem_cons_self)
          have hpending := pending_cons hlt hd
          have hpushed := List.length_filter_le
            (fun other => decide (other ∉ vertex :: search.discovered)) (graph.successors vertex)
          have hsound := h.discover valid hstack hd
          have hfuel : (((graph.successors vertex).filter
              fun other => other ∉ vertex :: search.discovered).reverse ++ search.stack).length +
                graph.pending (vertex :: search.discovered) ≤ fuel := by
            rw [List.length_append, List.length_reverse]
            omega
          rw [hstack] at hsound hfuel
          obtain ⟨hresult, hempty, hall⟩ := ih hsound hfuel hr
          refine ⟨hresult, hempty, fun other ho => hall other ?_⟩
          rcases ho with ho | ho
          · exact .inl (List.mem_append_right _ ho)
          · exact .inr (List.mem_cons_of_mem _ ho)

/-- The error of a search is a vertex with an edge to itself. -/
theorem explore_error {fuel : Nat} {search : Search} {vertex : Nat}
    (h : graph.explore fuel search = .error vertex) : graph.Edge vertex vertex := by
  induction fuel generalizing search with
  | zero => exact nomatch h
  | succ fuel ih =>
    rw [explore] at h
    split at h
    · exact nomatch h
    · split at h
      · exact ih h
      · split at h
        · rename_i hself
          obtain rfl := Except.error.inj h
          exact mem_successors.mp hself
        · exact ih h

/-- Between searches nothing is in progress; a new one may start anywhere. -/
theorem Search.Sound.restart {search : Search} (h : search.Sound graph)
    (hempty : search.stack = []) {vertex : Nat} (hlt : vertex < graph.size)
    (hd : vertex ∉ search.discovered) : Sound graph { search with stack := [vertex] } := by
  have hfinished : ∀ other ∈ search.discovered, other ∈ search.finished := by
    intro other ho
    by_contra hnot
    have := h.mem_stack other ho hnot
    simp [hempty] at this
  constructor
  · intro other ho
    obtain rfl := List.mem_singleton.mp ho
    exact hlt
  · exact h.discovered_lt
  · exact h.mem_discovered
  · intro other ho hnot
    exact absurd (hfinished other ho) hnot
  · exact h.nodup
  · intro above other below _ _ ho hnot
    exact absurd (hfinished other ho) hnot
  · exact h.after

theorem exploreFrom_ok (valid : graph.Valid) {starts : List Nat} {search result : Search}
    (hstarts : ∀ vertex ∈ starts, vertex < graph.size) (h : search.Sound graph)
    (hempty : search.stack = []) (hr : graph.exploreFrom starts search = .ok result) :
    result.Sound graph ∧ result.stack = [] ∧
      ∀ vertex, vertex ∈ starts ∨ vertex ∈ search.discovered → vertex ∈ result.discovered := by
  induction starts generalizing search with
  | nil =>
    obtain rfl : search = result := Except.ok.inj hr
    exact ⟨h, hempty, fun vertex hv => hv.resolve_left (by simp)⟩
  | cons start starts ih =>
    have hrest : ∀ vertex ∈ starts, vertex < graph.size :=
      fun vertex hv => hstarts vertex (List.mem_cons_of_mem _ hv)
    rw [exploreFrom] at hr
    split at hr
    · rename_i hd
      obtain ⟨hsound, hstack, hall⟩ := ih hrest h hempty hr
      refine ⟨hsound, hstack, fun vertex hv => hall vertex ?_⟩
      rcases hv with hv | hv
      · rcases List.mem_cons.mp hv with rfl | hv
        · exact .inr hd
        · exact .inl hv
      · exact .inr hv
    · rename_i hd
      split at hr
      · exact nomatch hr
      · rename_i next hnext
        have hfuel : [start].length + graph.pending search.discovered ≤ graph.fuel := by
          have := graph.pending_le search.discovered
          simp only [List.length_singleton, fuel]
          omega
        obtain ⟨hsound, hstack, hall⟩ := explore_ok valid
          (h.restart hempty (hstarts start List.mem_cons_self) hd) hfuel hnext
        obtain ⟨hresult, hdone, hmore⟩ := ih hrest hsound hstack hr
        refine ⟨hresult, hdone, fun vertex hv => hmore vertex ?_⟩
        rcases hv with hv | hv
        · rcases List.mem_cons.mp hv with rfl | hv
          · exact .inr (hall vertex (.inl (List.mem_singleton.mpr rfl)))
          · exact .inl hv
        · exact .inr (hall vertex (.inr hv))

theorem exploreFrom_error {starts : List Nat} {search : Search} {vertex : Nat}
    (h : graph.exploreFrom starts search = .error vertex) : graph.Edge vertex vertex := by
  induction starts generalizing search with
  | nil => exact nomatch h
  | cons start starts ih =>
    rw [exploreFrom] at h
    split at h
    · exact ih h
    · split at h
      · rename_i hexplore
        obtain rfl := Except.error.inj h
        exact explore_error hexplore
      · exact ih h

/-- A search that does not fail has seen no edge from a vertex to itself. -/
theorem explore_no_loop {fuel : Nat} {search result : Search}
    (h : ∀ vertex ∈ search.discovered, ¬ graph.Edge vertex vertex)
    (hr : graph.explore fuel search = .ok result) :
    ∀ vertex ∈ result.discovered, ¬ graph.Edge vertex vertex := by
  induction fuel generalizing search with
  | zero =>
    obtain rfl : search = result := Except.ok.inj hr
    exact h
  | succ fuel ih =>
    rw [explore] at hr
    split at hr
    · obtain rfl : search = result := Except.ok.inj hr
      exact h
    · split at hr
      · refine ih ?_ hr
        exact h
      · split at hr
        · exact nomatch hr
        · rename_i vertex _ _ _ hloop
          refine ih (fun other ho => ?_) hr
          rcases List.mem_cons.mp ho with rfl | ho
          · exact fun hedge => hloop (mem_successors.mpr hedge)
          · exact h other ho

theorem exploreFrom_no_loop {starts : List Nat} {search result : Search}
    (h : ∀ vertex ∈ search.discovered, ¬ graph.Edge vertex vertex)
    (hr : graph.exploreFrom starts search = .ok result) :
    ∀ vertex ∈ result.discovered, ¬ graph.Edge vertex vertex := by
  induction starts generalizing search with
  | nil =>
    obtain rfl : search = result := Except.ok.inj hr
    exact h
  | cons start starts ih =>
    rw [exploreFrom] at hr
    split at hr
    · exact ih h hr
    · split at hr
      · exact nomatch hr
      · rename_i hexplore
        refine ih (explore_no_loop ?_ hexplore) hr
        exact h

/-- A search of the whole graph that does not fail finishes every vertex once, and each after
its successors apart from those that have a path back to it; no edge leads from a vertex to
itself. -/
theorem finished_of_ok (valid : graph.Valid) {search : Search}
    (hr : graph.exploreFrom (List.range graph.size)
      { stack := [], discovered := [], finished := [] } = .ok search) :
    search.finished.Nodup ∧ (∀ vertex, vertex ∈ search.finished ↔ vertex < graph.size) ∧
      (∀ before vertex after, search.finished = before ++ vertex :: after →
        ∀ next, graph.Edge vertex next → next ∈ after ∨ graph.Path next vertex) ∧
      ∀ vertex, ¬ graph.Edge vertex vertex := by
  have hstart : Search.Sound graph { stack := [], discovered := [], finished := [] } := by
    constructor <;> simp
  obtain ⟨hsound, hempty, hall⟩ := exploreFrom_ok valid
    (fun vertex hv => List.mem_range.mp hv) hstart rfl hr
  refine ⟨hsound.nodup, fun vertex => ⟨fun hv => ?_, fun hv => ?_⟩, hsound.after,
    fun vertex hedge => ?_⟩
  · exact hsound.discovered_lt vertex (hsound.mem_discovered vertex hv)
  · by_contra hnot
    have := hsound.mem_stack vertex (hall vertex (.inl (List.mem_range.mpr hv))) hnot
    simp [hempty] at this
  · have hlt := (valid vertex vertex hedge).1
    exact exploreFrom_no_loop (by simp) hr vertex
      (hall vertex (.inl (List.mem_range.mpr hlt))) hedge

/-! ### Cycles -/

/-- A vertex that is given away has an edge to one that stands before it. -/
theorem backEdge?_eq_some {seen order : List Nat} {other : Nat}
    (h : graph.backEdge? seen order = some other) :
    ∃ before vertex after, order = before ++ vertex :: after ∧ graph.Edge other vertex ∧
      other ∉ before ++ vertex :: seen := by
  induction order generalizing seen with
  | nil => exact nomatch h
  | cons vertex order ih =>
    rw [backEdge?] at h
    split at h
    · rename_i found hlast
      obtain rfl := Option.some.inj h
      obtain ⟨hedge, hnew⟩ := List.mem_filter.mp (List.mem_of_getLast? hlast)
      exact ⟨[], vertex, order, rfl, mem_predecessors.mp hedge, of_decide_eq_true hnew⟩
    · obtain ⟨before, later, after, rfl, hedge, hnew⟩ := ih h
      refine ⟨vertex :: before, later, after, rfl, hedge, fun hmem => hnew ?_⟩
      simp only [List.cons_append, List.mem_cons, List.mem_append] at hmem ⊢
      tauto

/-- Where nothing is given away, every vertex stands behind what it depends on. -/
theorem mem_of_backEdge?_eq_none {seen order : List Nat}
    (h : graph.backEdge? seen order = none) {before : List Nat} {vertex : Nat} {after : List Nat}
    (horder : order = before ++ vertex :: after) {other : Nat} (hedge : graph.Edge other vertex) :
    other ∈ before ++ vertex :: seen := by
  induction before generalizing seen order with
  | nil =>
    subst horder
    rw [List.nil_append, backEdge?] at h
    split at h
    · exact nomatch h
    · rename_i hlast
      by_contra hnew
      have hmem : other ∈ (graph.predecessors vertex).filter fun other => other ∉ vertex :: seen :=
        List.mem_filter.mpr ⟨mem_predecessors.mpr hedge, decide_eq_true hnew⟩
      rw [List.getLast?_eq_none_iff.mp hlast] at hmem
      exact nomatch hmem
  | cons first before ih =>
    subst horder
    rw [List.cons_append, backEdge?] at h
    split at h
    · exact nomatch h
    · have hmem := ih h rfl
      simp only [List.cons_append, List.mem_cons, List.mem_append] at hmem ⊢
      tauto

/-- The vertex that is reported lies on a cycle. -/
theorem path_of_cycle? (valid : graph.Valid) {vertex : Nat} (h : graph.cycle? = some vertex) :
    graph.Path vertex vertex := by
  rw [cycle?] at h
  split at h
  · rename_i loop herror
    obtain rfl := Option.some.inj h
    exact .single (exploreFrom_error herror)
  · rename_i search hok
    obtain ⟨hnodup, hmem, hafter, -⟩ := finished_of_ok valid hok
    obtain ⟨before, target, after, horder, hedge, hnew⟩ := backEdge?_eq_some h
    rw [List.mem_append, List.mem_cons, not_or, not_or] at hnew
    -- it finished before the target of its edge, so the target has a path back to it
    have hlater : vertex ∈ after := by
      have hfinished := (hmem vertex).mpr (valid vertex target hedge).1
      rw [horder, List.mem_append, List.mem_cons] at hfinished
      tauto
    obtain ⟨between, last, rfl⟩ := List.append_of_mem hlater
    have hsplit : search.finished = (before ++ target :: between) ++ vertex :: last := by
      rw [horder, List.append_assoc, List.cons_append]
    rcases hafter _ vertex last hsplit target hedge with hlast | hpath
    · rw [hsplit] at hnodup
      exact absurd (List.mem_cons_of_mem _ hlast) (List.disjoint_of_nodup_append hnodup
        (List.mem_append_right _ List.mem_cons_self))
    · exact .head hedge hpath

/-- Where no vertex is reported, the order of finishing respects every edge. -/
theorem acyclic_of_cycle? (valid : graph.Valid) (h : graph.cycle? = none) : graph.Acyclic := by
  rw [cycle?] at h
  split at h
  · exact nomatch h
  · rename_i search hok
    obtain ⟨hnodup, hmem, -, hloop⟩ := finished_of_ok valid hok
    have hstep : ∀ u v, graph.Edge u v → search.finished.idxOf u < search.finished.idxOf v := by
      intro u v hedge
      obtain ⟨before, after, horder⟩ :=
        List.append_of_mem ((hmem v).mpr (valid u v hedge).2)
      have hu := mem_of_backEdge?_eq_none h horder hedge
      have hbefore : u ∈ before := by
        rcases List.mem_append.mp hu with hu | hu
        · exact hu
        · obtain rfl := List.mem_singleton.mp hu
          exact absurd hedge (hloop u)
      have hv : v ∉ before := by
        rw [horder] at hnodup
        exact fun hv => List.disjoint_of_nodup_append hnodup hv List.mem_cons_self
      rw [horder, List.idxOf_append_of_mem hbefore, List.idxOf_append_of_notMem hv,
        List.idxOf_cons_self]
      have := List.idxOf_lt_length_iff.mpr hbefore
      omega
    have hrank : ∀ u v, graph.Path u v → search.finished.idxOf u < search.finished.idxOf v := by
      intro u v hpath
      induction hpath with
      | single hedge => exact hstep _ _ hedge
      | tail _ hedge ih => exact ih.trans (hstep _ _ hedge)
    exact fun vertex hpath => Nat.lt_irrefl _ (hrank vertex vertex hpath)

theorem cycle?_eq_none (valid : graph.Valid) (acyclic : graph.Acyclic) : graph.cycle? = none := by
  cases hcycle : graph.cycle? with
  | none => rfl
  | some vertex => exact absurd (path_of_cycle? valid hcycle) (acyclic vertex)

end SourceTree.Graph
