import Mathlib.Data.Fintype.EquivFin
import Mathlib.Data.List.Perm.Subperm
import Mathlib.Order.WellFounded
import SourceTree.Proofs.Pipeline.Search

/-!
The schedule of a graph. At any time the counters say how many edges into a vertex come from
vertices that are not yet in the order, and the ready vertices are those that could come
next. A graph without cycles always has a ready vertex until all have been taken, and taking
the least one each time gives the least order.
-/
namespace SourceTree.Graph

variable {graph : Graph}

/-! ### Orders -/

/-- All vertices, each once and behind everything it depends on. -/
structure IsOrder (graph : Graph) (order : List Nat) : Prop where
  perm : order.Perm (List.range graph.size)
  behind : ∀ before vertex after, order = before ++ vertex :: after →
    ∀ source, graph.Edge source vertex → source ∈ before

/-- The vertex could come next, behind those in `order`. -/
def Ready (graph : Graph) (order : List Nat) (vertex : Nat) : Prop :=
  vertex < graph.size ∧ vertex ∉ order ∧ ∀ source, graph.Edge source vertex → source ∈ order

theorem Ready.cons {order : List Nat} {vertex other : Nat} (h : graph.Ready order other)
    (hne : other ≠ vertex) : graph.Ready (vertex :: order) other := by
  obtain ⟨hlt, hnot, hsources⟩ := h
  refine ⟨hlt, ?_, fun source hs => List.mem_cons_of_mem _ (hsources source hs)⟩
  rw [List.mem_cons, not_or]
  exact ⟨hne, hnot⟩

/-- Lexicographically at most. -/
def LexLe (first second : List Nat) : Prop := first = second ∨ List.Lex (· < ·) first second

theorem lexLe_append (first rest : List Nat) : LexLe first (first ++ rest) := by
  induction first with
  | nil =>
    cases rest with
    | nil => exact .inl rfl
    | cons vertex rest => exact .inr .nil
  | cons vertex first ih =>
    rcases ih with heq | hlex
    · exact .inl (congrArg (vertex :: ·) heq)
    · exact .inr (.cons hlex)

theorem lexLe_append_cons (first : List Nat) {u v : Nat} (h : u < v) (left right : List Nat) :
    LexLe (first ++ u :: left) (first ++ v :: right) := by
  right
  induction first with
  | nil => exact .rel h
  | cons vertex first ih => exact .cons ih

/-! ### Counters that refuse to go below zero -/

/-- Like `release`, but refuses to take one from a counter that is at zero. -/
def release? (progress : Progress) (vertex : Nat) : Option Progress :=
  if progress.waiting.getD vertex 0 = 0 then none else some (release progress vertex)

def advance? (graph : Graph) : Nat → Progress → Option Progress
  | 0, progress => some progress
  | fuel + 1, progress =>
    match progress.ready.min? with
    | none => some progress
    | some vertex =>
      ((graph.successors vertex).foldlM release?
        { progress with
          ready := progress.ready.erase vertex, order := vertex :: progress.order }).bind
        (advance? graph fuel)

def schedule? (graph : Graph) : Option (List Nat) :=
  let waiting := (List.range graph.size).map fun vertex => (graph.predecessors vertex).length
  let ready := (List.range graph.size).filter fun vertex => waiting.getD vertex 0 == 0
  (graph.advance? graph.size { waiting, ready, order := [] }).map fun progress =>
    progress.order.reverse

/-! ### Releasing -/

section Release

variable {progress : Progress}

theorem waiting_release (progress : Progress) (target vertex : Nat) :
    (release progress target).waiting.getD vertex 0 =
      progress.waiting.getD vertex 0 - if target = vertex then 1 else 0 := by
  simp only [release, List.getD_eq_getElem?_getD, List.getElem?_set]
  by_cases h : target = vertex
  · subst h
    by_cases hlt : target < progress.waiting.length
    · simp [hlt]
    · simp [hlt]
  · simp [h]

theorem mem_ready_release {target : Nat} (hpos : 0 < progress.waiting.getD target 0)
    (vertex : Nat) :
    vertex ∈ (release progress target).ready ↔
      vertex ∈ progress.ready ∨ vertex = target ∧ progress.waiting.getD target 0 = 1 := by
  simp only [release]
  split
  · rename_i hzero
    have hone : progress.waiting.getD target 0 = 1 := by omega
    rw [List.mem_cons]
    tauto
  · rename_i hzero
    have hmore : progress.waiting.getD target 0 ≠ 1 := by omega
    tauto

/-- What releasing along a list of edges does: a counter goes down once for each edge into
its vertex, and the vertices whose counter comes to zero get ready, each of them once. -/
structure Released (targets : List Nat) (before after : Progress) : Prop where
  order_eq : after.order = before.order
  length_eq : after.waiting.length = before.waiting.length
  waiting_eq : ∀ vertex,
    after.waiting.getD vertex 0 = before.waiting.getD vertex 0 - targets.count vertex
  mem_ready : ∀ vertex, vertex ∈ after.ready ↔ vertex ∈ before.ready ∨
    vertex ∈ targets ∧ before.waiting.getD vertex 0 = targets.count vertex
  nodup_ready : before.ready.Nodup → (∀ vertex ∈ targets, vertex ∉ before.ready) →
    after.ready.Nodup

theorem count_le_waiting_release {target : Nat} {targets : List Nat}
    (h : ∀ vertex, (target :: targets).count vertex ≤ progress.waiting.getD vertex 0)
    (vertex : Nat) :
    targets.count vertex ≤ (release progress target).waiting.getD vertex 0 := by
  have := h vertex
  rw [List.count_cons] at this
  rw [waiting_release]
  simp only [beq_iff_eq] at this
  omega

theorem waiting_pos {target : Nat} {targets : List Nat}
    (h : ∀ vertex, (target :: targets).count vertex ≤ progress.waiting.getD vertex 0) :
    0 < progress.waiting.getD target 0 := by
  have := h target
  rw [List.count_cons_self] at this
  omega

/-- Counters that are high enough are never found at zero. -/
theorem foldlM_release? {targets : List Nat}
    (h : ∀ vertex, targets.count vertex ≤ progress.waiting.getD vertex 0) :
    targets.foldlM release? progress = some (targets.foldl release progress) := by
  induction targets generalizing progress with
  | nil => rfl
  | cons target targets ih =>
    have hpos := waiting_pos h
    have hfirst : release? progress target = some (release progress target) :=
      if_neg (by omega)
    rw [List.foldlM_cons, hfirst, List.foldl_cons]
    exact ih (count_le_waiting_release h)

theorem foldl_release {targets : List Nat}
    (h : ∀ vertex, targets.count vertex ≤ progress.waiting.getD vertex 0) :
    Released targets progress (targets.foldl release progress) := by
  induction targets generalizing progress with
  | nil => constructor <;> simp
  | cons target targets ih =>
    have hpos := waiting_pos h
    have hrest := count_le_waiting_release h
    have hreleased := ih hrest
    rw [List.foldl_cons]
    constructor
    · exact hreleased.order_eq
    · rw [hreleased.length_eq]
      simp [release]
    · intro vertex
      rw [hreleased.waiting_eq, waiting_release, List.count_cons]
      simp only [beq_iff_eq]
      omega
    · intro vertex
      rw [hreleased.mem_ready, mem_ready_release hpos, waiting_release, List.count_cons,
        List.mem_cons]
      by_cases hv : vertex = target
      · subst hv
        have hle := hrest vertex
        rw [waiting_release] at hle
        have hmem : vertex ∈ targets ↔ 0 < targets.count vertex := List.count_pos_iff.symm
        simp only [if_true, beq_self_eq_true, true_and, true_or, hmem] at hle ⊢
        rw [or_assoc]
        refine or_congr_right ?_
        omega
      · have hv' : ¬ target = vertex := fun h => hv h.symm
        simp [hv, hv']
    · intro hdistinct hnew
      apply hreleased.nodup_ready
      · simp only [release]
        split
        · exact List.nodup_cons.mpr ⟨hnew target List.mem_cons_self, hdistinct⟩
        · exact hdistinct
      · intro vertex hv hmem
        rcases (mem_ready_release hpos vertex).mp hmem with hold | ⟨rfl, hone⟩
        · exact hnew vertex (List.mem_cons_of_mem _ hv) hold
        · have hcount := h vertex
          have hmore : 0 < targets.count vertex := List.count_pos_iff.mpr hv
          rw [List.count_cons_self] at hcount
          omega

end Release

/-! ### What a schedule in progress keeps true -/

/-- Parallel edges count the same at both ends. -/
theorem count_successors (graph : Graph) (u v : Nat) :
    (graph.successors u).count v = (graph.predecessors v).count u := by
  simp only [successors, predecessors, List.count_eq_countP, List.countP_map, List.countP_filter,
    Function.comp_def]
  exact List.countP_congr fun edge _ => by rw [Bool.and_comm]

/-- Edges from a vertex that is taken wait no longer. -/
theorem countP_not_mem_cons {vertex : Nat} {order : List Nat} (h : vertex ∉ order)
    (sources : List Nat) :
    sources.countP (· ∉ order) = sources.countP (· ∉ vertex :: order) + sources.count vertex := by
  induction sources with
  | nil => rfl
  | cons source sources ih =>
    rw [List.countP_cons, List.countP_cons, List.count_cons, ih]
    by_cases hs : source = vertex
    · subst hs
      simp [h]
      omega
    · by_cases ho : source ∈ order
      · simp [hs, ho]
      · simp [hs, ho]
        omega

theorem countP_eq_zero_iff {vertex : Nat} {order : List Nat} :
    (graph.predecessors vertex).countP (· ∉ order) = 0 ↔
      ∀ source, graph.Edge source vertex → source ∈ order := by
  simp [List.countP_eq_zero, mem_predecessors]

structure Progress.Consistent (graph : Graph) (progress : Progress) : Prop where
  length_waiting : progress.waiting.length = graph.size
  /-- The edges into a vertex that wait are those from vertices not yet in the order. -/
  waiting_eq : ∀ vertex < graph.size, progress.waiting.getD vertex 0 =
    (graph.predecessors vertex).countP (· ∉ progress.order)
  mem_ready : ∀ vertex, vertex ∈ progress.ready ↔ graph.Ready progress.order vertex
  nodup_ready : progress.ready.Nodup
  nodup_order : progress.order.Nodup
  order_lt : ∀ vertex ∈ progress.order, vertex < graph.size
  behind : ∀ later vertex earlier, progress.order = later ++ vertex :: earlier →
    ∀ source, graph.Edge source vertex → source ∈ earlier

/-- Takes a vertex and releases what waits for it. -/
def take (graph : Graph) (progress : Progress) (vertex : Nat) : Progress :=
  (graph.successors vertex).foldl release
    { progress with ready := progress.ready.erase vertex, order := vertex :: progress.order }

theorem advance_succ (graph : Graph) (fuel : Nat) (progress : Progress) :
    graph.advance (fuel + 1) progress =
      match progress.ready.min? with
      | none => progress
      | some vertex => graph.advance fuel (graph.take progress vertex) := rfl

namespace Progress.Consistent

variable {progress : Progress}

/-- Of the edges that wait, some come from the vertex that is taken. -/
theorem waiting_eq_add (h : progress.Consistent graph) {vertex : Nat}
    (hready : vertex ∈ progress.ready) {other : Nat} (hlt : other < graph.size) :
    progress.waiting.getD other 0 =
      (graph.predecessors other).countP (· ∉ vertex :: progress.order) +
        (graph.successors vertex).count other := by
  rw [h.waiting_eq other hlt, count_successors]
  exact countP_not_mem_cons ((h.mem_ready vertex).mp hready).2.1 _

/-- The edges out of a ready vertex all still wait. -/
theorem count_le (h : progress.Consistent graph) (valid : graph.Valid) {vertex : Nat}
    (hready : vertex ∈ progress.ready) (other : Nat) :
    (graph.successors vertex).count other ≤ progress.waiting.getD other 0 := by
  by_cases hedge : other ∈ graph.successors vertex
  · rw [h.waiting_eq_add hready (valid vertex other (mem_successors.mp hedge)).2]
    omega
  · rw [List.count_eq_zero_of_not_mem hedge]
    exact Nat.zero_le _

/-- Ready once a vertex is taken: what was ready besides it, and those that waited for it
alone. -/
theorem ready_cons_iff (h : progress.Consistent graph) (valid : graph.Valid) {vertex : Nat}
    (hready : vertex ∈ progress.ready) (other : Nat) :
    other ∈ progress.ready.erase vertex ∨ other ∈ graph.successors vertex ∧
        progress.waiting.getD other 0 = (graph.successors vertex).count other ↔
      graph.Ready (vertex :: progress.order) other := by
  obtain ⟨-, hnew, hsources⟩ := (h.mem_ready vertex).mp hready
  rw [h.nodup_ready.mem_erase_iff, h.mem_ready, mem_successors]
  constructor
  · rintro (⟨hne, hother⟩ | ⟨hedge, hwaiting⟩)
    · exact hother.cons hne
    · have hlt := (valid vertex other hedge).2
      have hcount := h.waiting_eq_add hready hlt
      refine ⟨hlt, ?_, countP_eq_zero_iff.mp (by omega)⟩
      rw [List.mem_cons, not_or]
      constructor
      · rintro rfl
        exact hnew (hsources other hedge)
      · intro ho
        obtain ⟨later, earlier, hsplit⟩ := List.append_of_mem ho
        have := h.behind later other earlier hsplit vertex hedge
        exact hnew (hsplit ▸ List.mem_append_right _ (List.mem_cons_of_mem _ this))
  · rintro ⟨hlt, hnot, hbefore⟩
    rw [List.mem_cons, not_or] at hnot
    by_cases hedge : graph.Edge vertex other
    · refine .inr ⟨hedge, ?_⟩
      have hcount := h.waiting_eq_add hready hlt
      have hnone := countP_eq_zero_iff.mpr hbefore
      omega
    · refine .inl ⟨hnot.1, hlt, hnot.2, fun source hsource => ?_⟩
      rcases List.mem_cons.mp (hbefore source hsource) with rfl | ho
      · exact absurd hsource hedge
      · exact ho

theorem take (h : progress.Consistent graph) (valid : graph.Valid) {vertex : Nat}
    (hready : vertex ∈ progress.ready) : (graph.take progress vertex).Consistent graph := by
  obtain ⟨hlt, hnew, hsources⟩ := (h.mem_ready vertex).mp hready
  have hreleased : Released (graph.successors vertex)
      { progress with ready := progress.ready.erase vertex, order := vertex :: progress.order }
      (graph.take progress vertex) := foldl_release (h.count_le valid hready)
  constructor
  · rw [hreleased.length_eq]
    exact h.length_waiting
  · intro other ho
    have hcount := h.waiting_eq_add hready ho
    rw [hreleased.waiting_eq, hreleased.order_eq]
    show progress.waiting.getD other 0 - (graph.successors vertex).count other =
      (graph.predecessors other).countP (· ∉ vertex :: progress.order)
    omega
  · intro other
    rw [hreleased.mem_ready, hreleased.order_eq]
    exact h.ready_cons_iff valid hready other
  · apply hreleased.nodup_ready
    · exact h.nodup_ready.erase vertex
    · intro other ho hmem
      have hother := (h.mem_ready other).mp (List.mem_of_mem_erase hmem)
      exact hnew (hother.2.2 vertex (mem_successors.mp ho))
  · rw [hreleased.order_eq]
    exact List.nodup_cons.mpr ⟨hnew, h.nodup_order⟩
  · intro other ho
    rw [hreleased.order_eq] at ho
    rcases List.mem_cons.mp ho with rfl | ho
    · exact hlt
    · exact h.order_lt other ho
  · intro later other earlier hsplit source hedge
    rw [hreleased.order_eq] at hsplit
    cases later with
    | nil =>
      obtain ⟨rfl, rfl⟩ := List.cons.inj hsplit
      exact hsources source hedge
    | cons first later =>
      obtain ⟨-, hrest⟩ := List.cons.inj hsplit
      exact h.behind later other earlier hrest source hedge

end Progress.Consistent

/-! ### Whole runs -/

/-- The schedule before anything is taken. -/
def Progress.start (graph : Graph) : Progress :=
  let waiting := (List.range graph.size).map fun vertex => (graph.predecessors vertex).length
  { waiting
    ready := (List.range graph.size).filter fun vertex => waiting.getD vertex 0 == 0
    order := [] }

theorem Progress.start_consistent (graph : Graph) : (Progress.start graph).Consistent graph := by
  have hwaiting : ∀ vertex < graph.size,
      (Progress.start graph).waiting.getD vertex 0 = (graph.predecessors vertex).length := by
    intro vertex hlt
    simp [Progress.start, List.getD_eq_getElem?_getD, hlt]
  constructor
  · simp [Progress.start]
  · intro vertex hlt
    rw [hwaiting vertex hlt]
    simp [Progress.start, List.countP_true]
  · intro vertex
    have hready : vertex ∈ (Progress.start graph).ready ↔
        vertex < graph.size ∧ (Progress.start graph).waiting.getD vertex 0 = 0 := by
      simp [Progress.start]
    rw [hready]
    refine and_congr_right fun hlt => ?_
    rw [hwaiting vertex hlt, List.length_eq_zero_iff, List.eq_nil_iff_forall_not_mem]
    simp only [mem_predecessors, Progress.start, List.not_mem_nil, not_false_eq_true, true_and]
  · exact List.nodup_range.filter _
  · exact List.nodup_nil
  · intro vertex hv
    exact nomatch hv
  · intro later vertex earlier hsplit
    simp [Progress.start] at hsplit

variable {progress : Progress}

theorem advance_consistent (valid : graph.Valid) (h : progress.Consistent graph) (fuel : Nat) :
    (graph.advance fuel progress).Consistent graph := by
  induction fuel generalizing progress with
  | zero => exact h
  | succ fuel ih =>
    rw [advance_succ]
    split
    · exact h
    · rename_i vertex hmin
      exact ih (h.take valid (List.min?_mem hmin))

/-- No counter is found at zero. -/
theorem advance?_eq (valid : graph.Valid) (h : progress.Consistent graph) (fuel : Nat) :
    graph.advance? fuel progress = some (graph.advance fuel progress) := by
  induction fuel generalizing progress with
  | zero => rfl
  | succ fuel ih =>
    rw [advance?, advance_succ]
    split
    · rfl
    · rename_i vertex hmin
      have hready := List.min?_mem hmin
      have hreleased : (graph.successors vertex).foldlM release?
          { progress with
            ready := progress.ready.erase vertex, order := vertex :: progress.order } =
            some (graph.take progress vertex) := foldlM_release? (h.count_le valid hready)
      rw [hreleased]
      exact ih (h.take valid hready)

theorem order_take (graph : Graph) (progress : Progress) (vertex : Nat) :
    (graph.take progress vertex).order = vertex :: progress.order := by
  have horder : ∀ (targets : List Nat) (progress : Progress),
      (targets.foldl release progress).order = progress.order := by
    intro targets
    induction targets with
    | nil => exact fun _ => rfl
    | cons target targets ih => exact fun progress => ih (release progress target)
  exact horder _ _

/-- What was taken stays. -/
theorem order_suffix_advance (graph : Graph) (progress : Progress) (fuel : Nat) :
    progress.order <:+ (graph.advance fuel progress).order := by
  induction fuel generalizing progress with
  | zero => exact List.suffix_refl _
  | succ fuel ih =>
    rw [advance_succ]
    split
    · exact List.suffix_refl _
    · rename_i vertex _
      have hnext := ih (graph.take progress vertex)
      rw [order_take] at hnext
      exact (List.suffix_cons vertex progress.order).trans hnext

/-- Without cycles something is ready as long as something is left. -/
theorem exists_ready (valid : graph.Valid) (acyclic : graph.Acyclic) {order : List Nat}
    (hleft : ∃ vertex < graph.size, vertex ∉ order) : ∃ vertex, graph.Ready order vertex := by
  have hwf : WellFounded fun a b : Fin graph.size => graph.Path a b := by
    have : IsTrans (Fin graph.size) fun a b => graph.Path a b := ⟨fun _ _ _ => .trans⟩
    have : Std.Irrefl fun a b : Fin graph.size => graph.Path a b := ⟨fun a => acyclic a⟩
    exact Finite.wellFounded_of_trans_of_irrefl _
  obtain ⟨vertex, hlt, hnot⟩ := hleft
  obtain ⟨first, hfirst, hleast⟩ := hwf.has_min
    {vertex : Fin graph.size | vertex.val ∉ order} ⟨⟨vertex, hlt⟩, hnot⟩
  refine ⟨first, first.isLt, hfirst, fun source hedge => ?_⟩
  by_contra hsource
  exact hleast ⟨source, (valid source first hedge).1⟩ hsource (.single hedge)

/-- Without cycles every step takes a vertex, until all are taken. -/
theorem length_advance (valid : graph.Valid) (acyclic : graph.Acyclic)
    (h : progress.Consistent graph) {fuel : Nat}
    (hfuel : progress.order.length + fuel = graph.size) :
    (graph.advance fuel progress).order.length = graph.size := by
  induction fuel generalizing progress with
  | zero => exact hfuel
  | succ fuel ih =>
    rw [advance_succ]
    split
    · rename_i hnone
      -- an order that is too short leaves a vertex out, and then one is ready
      have hleft : ∃ vertex < graph.size, vertex ∉ progress.order := by
        by_contra hall
        have hsubset : List.range graph.size ⊆ progress.order := by
          intro vertex hv
          by_contra hnot
          exact hall ⟨vertex, List.mem_range.mp hv, hnot⟩
        have hlength := (List.nodup_range.subperm hsubset).length_le
        rw [List.length_range] at hlength
        omega
      obtain ⟨vertex, hready⟩ := exists_ready valid acyclic hleft
      have := (h.mem_ready vertex).mpr hready
      rw [List.min?_eq_none_iff.mp hnone] at this
      exact nomatch this
    · rename_i vertex hmin
      apply ih (h.take valid (List.min?_mem hmin))
      rw [order_take, List.length_cons]
      omega

/-- An order that is long enough has all vertices. -/
theorem Progress.Consistent.perm_range (h : progress.Consistent graph)
    (hlength : graph.size ≤ progress.order.length) :
    progress.order.Perm (List.range graph.size) := by
  have hsubset : progress.order ⊆ List.range graph.size :=
    fun vertex hv => List.mem_range.mpr (h.order_lt vertex hv)
  apply (h.nodup_order.subperm hsubset).perm_of_length_le
  rw [List.length_range]
  exact hlength

/-- Each round takes a vertex, so nothing is ready any more after as many rounds as there are
vertices. This needs no absence of cycles; vertices on a cycle never get ready. -/
theorem ready_advance_eq_nil (valid : graph.Valid) (h : progress.Consistent graph) {fuel : Nat}
    (hfuel : graph.size ≤ progress.order.length + fuel) :
    (graph.advance fuel progress).ready = [] := by
  induction fuel generalizing progress with
  | zero =>
    refine List.eq_nil_iff_forall_not_mem.mpr fun vertex hready => ?_
    obtain ⟨hlt, hnot, -⟩ := (h.mem_ready vertex).mp hready
    exact hnot ((h.perm_range hfuel).mem_iff.mpr (List.mem_range.mpr hlt))
  | succ fuel ih =>
    rw [advance_succ]
    split
    · rename_i hnone
      exact List.min?_eq_none_iff.mp hnone
    · rename_i vertex hmin
      apply ih (h.take valid (List.min?_mem hmin))
      rw [order_take, List.length_cons]
      omega

/-- Any order that starts with what was taken so far goes on with a ready vertex, so it cannot
be less than the one that takes the least of them. -/
theorem advance_le (valid : graph.Valid) (h : progress.Consistent graph) {other : List Nat}
    (horder : graph.IsOrder other) {rest : List Nat}
    (hstarts : other = progress.order.reverse ++ rest) (fuel : Nat) :
    LexLe (graph.advance fuel progress).order.reverse other := by
  induction fuel generalizing progress rest with
  | zero =>
    rw [hstarts]
    exact lexLe_append _ _
  | succ fuel ih =>
    rw [advance_succ]
    split
    · rw [hstarts]
      exact lexLe_append _ _
    · rename_i vertex hmin
      obtain ⟨hmem, hleast⟩ := List.min?_eq_some_iff.mp hmin
      obtain ⟨hlt, hnew, -⟩ := (h.mem_ready vertex).mp hmem
      have hvertex : vertex ∈ other := horder.perm.mem_iff.mpr (List.mem_range.mpr hlt)
      cases rest with
      | nil =>
        rw [hstarts, List.append_nil, List.mem_reverse] at hvertex
        exact absurd hvertex hnew
      | cons next rest =>
        have hnext : graph.Ready progress.order next := by
          refine ⟨?_, ?_, fun source hedge => ?_⟩
          · apply List.mem_range.mp
            exact horder.perm.mem_iff.mp (hstarts ▸ List.mem_append_right _ List.mem_cons_self)
          · intro ho
            have hnodup := horder.perm.nodup_iff.mpr List.nodup_range
            rw [hstarts] at hnodup
            exact List.disjoint_of_nodup_append hnodup (List.mem_reverse.mpr ho)
              List.mem_cons_self
          · exact List.mem_reverse.mp (horder.behind _ next rest hstarts source hedge)
        rcases Nat.lt_or_eq_of_le (hleast next ((h.mem_ready next).mpr hnext)) with hless | rfl
        · obtain ⟨later, hlater⟩ := order_suffix_advance graph (graph.take progress vertex) fuel
          rw [← hlater, order_take, hstarts, List.reverse_append, List.reverse_cons,
            List.append_assoc]
          exact lexLe_append_cons _ hless _ _
        · apply ih (h.take valid hmem)
          rw [hstarts, order_take, List.reverse_cons, List.append_assoc, List.singleton_append]

/-! ### The schedule -/

theorem schedule_eq (graph : Graph) :
    graph.schedule = (graph.advance graph.size (Progress.start graph)).order.reverse := rfl

/-- The schedule ends because nothing is ready, never because the rounds run out. -/
theorem ready_schedule_eq_nil (valid : graph.Valid) :
    (graph.advance graph.size (Progress.start graph)).ready = [] :=
  ready_advance_eq_nil valid (Progress.start_consistent graph) (Nat.le_add_left _ _)

/-- No counter ever goes below zero. -/
theorem schedule?_eq (valid : graph.Valid) : graph.schedule? = some graph.schedule := by
  have := advance?_eq valid (Progress.start_consistent graph) graph.size
  exact congrArg (Option.map fun progress => progress.order.reverse) this

/-- The schedule of a graph without cycles is an order of its vertices. -/
theorem schedule_isOrder (valid : graph.Valid) (acyclic : graph.Acyclic) :
    graph.IsOrder graph.schedule := by
  have hend := advance_consistent valid (Progress.start_consistent graph) graph.size
  have hlength := length_advance valid acyclic (Progress.start_consistent graph)
    (Nat.zero_add graph.size)
  rw [schedule_eq]
  constructor
  · exact (List.reverse_perm _).trans (hend.perm_range hlength.ge)
  · intro before vertex after hsplit source hedge
    have hreverse : (graph.advance graph.size (Progress.start graph)).order =
        after.reverse ++ vertex :: before.reverse := by
      rw [← List.reverse_reverse (graph.advance graph.size (Progress.start graph)).order, hsplit]
      simp
    exact List.mem_reverse.mp (hend.behind _ vertex _ hreverse source hedge)

/-- It is the least one. -/
theorem schedule_le (valid : graph.Valid) {other : List Nat} (h : graph.IsOrder other) :
    LexLe graph.schedule other :=
  advance_le valid (Progress.start_consistent graph) h rfl graph.size

/-! ### Graphs whose vertices are in order -/

/-- Nothing comes before the sorted arrangement. -/
theorem eq_of_lexLe {first second : List Nat} (hsorted : second.Pairwise (· < ·))
    (hperm : first.Perm second) (h : LexLe first second) : first = second := by
  rcases h with h | h
  · exact h
  · induction h with
    | nil => exact nomatch hperm.symm.length_eq
    | @cons a as bs _ ih =>
      rw [ih (List.Pairwise.of_cons hsorted) ((List.perm_cons a).mp hperm)]
    | @rel a as b bs hlt =>
      rcases List.mem_cons.mp (hperm.mem_iff.mp List.mem_cons_self) with rfl | hmem
      · omega
      · have := List.rel_of_pairwise_cons hsorted hmem
        omega

theorem IsOrder.lt_of_edge (h : graph.IsOrder (List.range graph.size)) (valid : graph.Valid)
    {u v : Nat} (hedge : graph.Edge u v) : u < v := by
  have hlt : v < (List.range graph.size).length := by
    rw [List.length_range]
    exact (valid u v hedge).2
  have hsplit : List.range graph.size = (List.range graph.size).take v ++
      v :: (List.range graph.size).drop (v + 1) := by
    have hdrop := List.drop_eq_getElem_cons hlt
    rw [List.getElem_range] at hdrop
    rw [← hdrop, List.take_append_drop]
  have hbefore := h.behind _ _ _ hsplit u hedge
  rw [List.take_range, List.mem_range] at hbefore
  omega

/-- Vertices that come in order already are scheduled as they come. -/
theorem schedule_of_isOrder (valid : graph.Valid) (h : graph.IsOrder (List.range graph.size)) :
    graph.Acyclic ∧ graph.schedule = List.range graph.size := by
  have hacyclic : graph.Acyclic := by
    have hpath : ∀ u v, graph.Path u v → u < v := by
      intro u v hpath
      induction hpath with
      | single hedge => exact h.lt_of_edge valid hedge
      | tail _ hedge ih => exact Nat.lt_trans ih (h.lt_of_edge valid hedge)
    exact fun vertex hcycle => Nat.lt_irrefl vertex (hpath vertex vertex hcycle)
  exact ⟨hacyclic, eq_of_lexLe List.pairwise_lt_range (schedule_isOrder valid hacyclic).perm
    (schedule_le valid h)⟩

end SourceTree.Graph
