import SourceTree.Pipeline.Basic
import SourceTree.Proofs.Pipeline.Schedule

/-!
The order in which a pipeline runs. Passes are numbered by their places, so the graph of a
pipeline is its dependency relation in other words, and the schedule of the graph is the
least order of the passes that respects their dependencies.
-/
namespace SourceTree.Pipeline

variable {σ : Type} {pipeline : Pipeline σ}

/-! ### Pipelines that can be built -/

/-- Built from the empty pipeline by adding and removing passes. -/
inductive Reachable : Pipeline σ → Prop where
  | empty : Reachable .empty
  | add {pipeline : Pipeline σ} (h : Reachable pipeline) (pass : Pass σ) :
      Reachable (pipeline.add pass)
  | remove {pipeline : Pipeline σ} (h : Reachable pipeline) (id : String) :
      Reachable (pipeline.remove id)

theorem mem_ids_putPass {pass : Pass σ} {passes : List (Pass σ)} {id : String} :
    id ∈ (putPass pass passes).map Pass.id ↔ id = pass.id ∨ id ∈ passes.map Pass.id := by
  induction passes with
  | nil => simp [putPass]
  | cons other passes ih =>
    rw [putPass]
    split
    · rename_i hid
      simp [hid]
    · rw [List.map_cons, List.mem_cons, ih, List.map_cons, List.mem_cons]
      tauto

theorem nodup_ids_putPass {pass : Pass σ} {passes : List (Pass σ)}
    (h : (passes.map Pass.id).Nodup) : ((putPass pass passes).map Pass.id).Nodup := by
  induction passes with
  | nil => simp [putPass]
  | cons other passes ih =>
    obtain ⟨hnew, hrest⟩ := List.nodup_cons.mp h
    rw [putPass]
    split
    · rename_i hid
      rw [List.map_cons, ← hid]
      exact h
    · rename_i hid
      refine List.nodup_cons.mpr ⟨?_, ih hrest⟩
      rw [mem_ids_putPass, not_or]
      exact ⟨hid, hnew⟩

theorem Reachable.nodup_ids (h : pipeline.Reachable) : pipeline.ids.Nodup := by
  induction h with
  | empty => exact List.nodup_nil
  | add _ pass ih => exact nodup_ids_putPass ih
  | remove _ id ih => exact ih.sublist (List.eraseP_sublist.map Pass.id)

/-! ### Dependencies -/

def DependsOn (pipeline : Pipeline σ) (id dependency : String) : Prop :=
  ∃ pass ∈ pipeline.passes, pass.id = id ∧ dependency ∈ pass.dependencies

theorem DependsOn.mem_ids {id dependency : String} (h : pipeline.DependsOn id dependency) :
    id ∈ pipeline.ids := by
  obtain ⟨pass, hpass, rfl, -⟩ := h
  exact List.mem_map_of_mem hpass

/-- Every dependency is the id of a pass. -/
def Complete (pipeline : Pipeline σ) : Prop :=
  ∀ id dependency, pipeline.DependsOn id dependency → dependency ∈ pipeline.ids

def Acyclic (pipeline : Pipeline σ) : Prop := ∀ id, ¬ Relation.TransGen pipeline.DependsOn id id

/-- All passes, each once and behind everything it depends on. -/
structure IsOrder (pipeline : Pipeline σ) (order : List String) : Prop where
  perm : order.Perm pipeline.ids
  behind : ∀ before id after, order = before ++ id :: after →
    ∀ dependency, pipeline.DependsOn id dependency → dependency ∈ before

/-- The places of passes. -/
def places (pipeline : Pipeline σ) (order : List String) : List Nat :=
  order.map fun id => pipeline.ids.idxOf id

/-! ### The graph of a pipeline -/

theorem findIdx?_of_mem {ids : List String} {id : String} (h : id ∈ ids) :
    ids.findIdx? (· == id) = some (ids.idxOf id) := by
  rw [List.findIdx?_eq_some_iff_findIdx_eq]
  exact ⟨List.idxOf_lt_length_iff.mpr h, rfl⟩

theorem passEdges_eq {ids : List String} {dependencies : List String}
    (h : ∀ dependency ∈ dependencies, dependency ∈ ids) (id : String) (target : Nat) :
    passEdges ids id target dependencies =
      .ok (dependencies.map fun dependency => (ids.idxOf dependency, target)) := by
  induction dependencies with
  | nil => rfl
  | cons dependency dependencies ih =>
    rw [passEdges, findIdx?_of_mem (h dependency List.mem_cons_self),
      ih fun other ho => h other (List.mem_cons_of_mem _ ho)]
    rfl

theorem edgesFrom_eq {ids : List String} {passes : List (Pass σ)}
    (h : ∀ pass ∈ passes, ∀ dependency ∈ pass.dependencies, dependency ∈ ids) (target : Nat) :
    edgesFrom ids target passes =
      .ok ((passes.zipIdx target).flatMap fun (pass, target) =>
        pass.dependencies.map fun dependency => (ids.idxOf dependency, target)) := by
  induction passes generalizing target with
  | nil => rfl
  | cons pass passes ih =>
    rw [edgesFrom, passEdges_eq (h pass List.mem_cons_self),
      ih fun other ho => h other (List.mem_cons_of_mem _ ho)]
    rfl

theorem idxOf_eq (nodup : pipeline.ids.Nodup) {id : String} {place : Nat}
    (h : pipeline.ids[place]? = some id) : pipeline.ids.idxOf id = place := by
  obtain ⟨hlt, rfl⟩ := List.getElem?_eq_some_iff.mp h
  exact nodup.idxOf_getElem place hlt

/-- The vertices are the places of passes, the edges lead from dependencies to dependents. -/
structure Shows (graph : Graph) (pipeline : Pipeline σ) : Prop where
  size_eq : graph.size = pipeline.ids.length
  edge_iff : ∀ u v, graph.Edge u v ↔ ∃ id dependency, pipeline.ids[v]? = some id ∧
    pipeline.ids[u]? = some dependency ∧ pipeline.DependsOn id dependency

/-- A pipeline whose dependencies are all there has a graph. -/
theorem exists_graph (nodup : pipeline.ids.Nodup) (complete : pipeline.Complete) :
    ∃ graph, pipeline.graph = .ok graph ∧ Shows graph pipeline := by
  have hpresent : ∀ pass ∈ pipeline.passes, ∀ dependency ∈ pass.dependencies,
      dependency ∈ pipeline.ids :=
    fun pass hp dependency hd => complete pass.id dependency ⟨pass, hp, rfl, hd⟩
  refine ⟨_, by rw [Pipeline.graph, edgesFrom_eq hpresent 0], by simp [ids], fun u v => ?_⟩
  simp only [Graph.Edge, List.mem_flatMap, List.mem_map, Prod.exists, Prod.mk.injEq,
    List.mem_zipIdx_iff_getElem?]
  constructor
  · rintro ⟨pass, place, hpass, dependency, hd, rfl, rfl⟩
    have hdepends : pipeline.DependsOn pass.id dependency :=
      ⟨pass, List.mem_of_getElem? hpass, rfl, hd⟩
    refine ⟨pass.id, dependency, ?_, ?_, hdepends⟩
    · simp [ids, hpass]
    · exact List.getElem?_idxOf (complete _ _ hdepends)
  · rintro ⟨id, dependency, hid, hdependency, pass, hmem, rfl, hd⟩
    obtain ⟨other, hother, hsame⟩ : ∃ other, pipeline.passes[v]? = some other ∧
        other.id = pass.id := by
      simpa [ids] using hid
    -- a pass is known by its id
    obtain rfl : other = pass :=
      List.inj_on_of_nodup_map nodup (List.mem_of_getElem? hother) hmem hsame
    exact ⟨other, v, hother, dependency, hd, idxOf_eq nodup hdependency, rfl⟩

namespace Shows

variable {graph : Graph}

theorem valid (h : Shows graph pipeline) : graph.Valid := by
  intro u v hedge
  obtain ⟨id, dependency, hid, hdependency, -⟩ := (h.edge_iff u v).mp hedge
  rw [h.size_eq]
  exact ⟨(List.getElem?_eq_some_iff.mp hdependency).1, (List.getElem?_eq_some_iff.mp hid).1⟩

/-- Paths run against dependencies. -/
theorem transGen_of_path (h : Shows graph pipeline) {u v : Nat} (hpath : graph.Path u v) :
    Relation.TransGen pipeline.DependsOn (pipeline.ids.getD v "") (pipeline.ids.getD u "") := by
  have hstep : ∀ u v, graph.Edge u v →
      pipeline.DependsOn (pipeline.ids.getD v "") (pipeline.ids.getD u "") := by
    intro u v hedge
    obtain ⟨id, dependency, hid, hdependency, hdepends⟩ := (h.edge_iff u v).mp hedge
    simpa [List.getD_eq_getElem?_getD, hid, hdependency] using hdepends
  induction hpath with
  | single hedge => exact .single (hstep _ _ hedge)
  | tail _ hedge ih => exact .head (hstep _ _ hedge) ih

theorem acyclic (h : Shows graph pipeline) (acyclic : pipeline.Acyclic) : graph.Acyclic :=
  fun _ hpath => acyclic _ (h.transGen_of_path hpath)

/-- A dependency is an edge between the places of two passes. -/
theorem edge_of_dependsOn (h : Shows graph pipeline) (complete : pipeline.Complete)
    {id dependency : String} (hdepends : pipeline.DependsOn id dependency) :
    graph.Edge (pipeline.ids.idxOf dependency) (pipeline.ids.idxOf id) := by
  exact (h.edge_iff _ _).mpr ⟨id, dependency, List.getElem?_idxOf hdepends.mem_ids,
    List.getElem?_idxOf (complete id dependency hdepends), hdepends⟩

theorem places_ids (h : Shows graph pipeline) (nodup : pipeline.ids.Nodup) :
    pipeline.places pipeline.ids = List.range graph.size := by
  rw [h.size_eq]
  apply List.ext_getElem
  · simp [places]
  · intro place _ _
    simp [places, nodup.idxOf_getElem]

/-- An order of the passes is an order of their places. -/
theorem isOrder_places (h : Shows graph pipeline) (nodup : pipeline.ids.Nodup)
    {order : List String} (horder : pipeline.IsOrder order) :
    graph.IsOrder (pipeline.places order) := by
  constructor
  · rw [← h.places_ids nodup]
    exact horder.perm.map _
  · intro before vertex after hsplit source hedge
    obtain ⟨id, dependency, hid, hdependency, hdepends⟩ := (h.edge_iff source vertex).mp hedge
    obtain ⟨first, rest, rfl, rfl, hrest⟩ := List.map_eq_append_iff.mp hsplit
    obtain ⟨other, last, rfl, hother, -⟩ := List.map_eq_cons_iff.mp hrest
    have hmem : other ∈ pipeline.ids :=
      horder.perm.mem_iff.mp (List.mem_append_right _ List.mem_cons_self)
    obtain rfl : other = id := by
      rw [← List.idxOf_inj hmem, hother, idxOf_eq nodup hid]
    have hbefore := horder.behind first other last rfl dependency hdepends
    exact List.mem_map.mpr ⟨dependency, hbefore, idxOf_eq nodup hdependency⟩

/-- The converse, for orders that hold every pass. -/
theorem isOrder_of_places (h : Shows graph pipeline) (complete : pipeline.Complete)
    {order : List String} (hperm : order.Perm pipeline.ids)
    (horder : graph.IsOrder (pipeline.places order)) : pipeline.IsOrder order := by
  refine ⟨hperm, fun before id after hsplit dependency hdepends => ?_⟩
  have hedge := h.edge_of_dependsOn complete hdepends
  have hplaces : pipeline.places order =
      pipeline.places before ++ pipeline.ids.idxOf id :: pipeline.places after := by
    simp [places, hsplit]
  obtain ⟨other, hother, heq⟩ := List.mem_map.mp (horder.behind _ _ _ hplaces _ hedge)
  have hmem : other ∈ pipeline.ids :=
    hperm.mem_iff.mp (hsplit ▸ List.mem_append_left _ hother)
  rwa [(List.idxOf_inj hmem).mp heq] at hother

end Shows

/-! ### The order -/

theorem places_filterMap (nodup : pipeline.ids.Nodup) {vertices : List Nat}
    (h : ∀ vertex ∈ vertices, vertex < pipeline.ids.length) :
    pipeline.places (vertices.filterMap fun vertex => pipeline.ids[vertex]?) = vertices := by
  induction vertices with
  | nil => rfl
  | cons vertex vertices ih =>
    have hid := List.getElem?_eq_getElem (h vertex List.mem_cons_self)
    have hrest := ih fun other ho => h other (List.mem_cons_of_mem _ ho)
    rw [List.filterMap_cons_some hid]
    simp only [places, List.map_cons] at hrest ⊢
    rw [hrest, idxOf_eq nodup hid]

theorem filterMap_range {α : Type*} (items : List α) :
    ((List.range items.length).filterMap fun place => items[place]?) = items := by
  have hmap : ((List.range items.length).map fun place => items[place]?) = items.map some := by
    apply List.ext_getElem
    · simp
    · intro place _ _
      simp
  calc ((List.range items.length).filterMap fun place => items[place]?)
      = ((List.range items.length).map fun place => items[place]?).filterMap id := by
        rw [List.filterMap_map, Function.id_comp]
    _ = items := by
        rw [hmap, List.filterMap_map, Function.id_comp, List.filterMap_some]

theorem executionOrder_eq {graph : Graph} (hgraph : pipeline.graph = .ok graph)
    (hcycle : graph.cycle? = none) :
    pipeline.executionOrder =
      .ok (graph.schedule.filterMap fun vertex => pipeline.ids[vertex]?) := by
  rw [executionOrder, schedule, hgraph]
  simp only [hcycle]
  rw [List.map_filterMap]
  simp [ids]

/-- The ids of a pipeline are distinct. If all dependencies are there and none is circular,
its passes run in an order that respects them, and of all such orders in the one that is least
when passes are compared by their places; no counter of dependencies goes below zero. -/
theorem executionOrder_least (reachable : pipeline.Reachable) :
    pipeline.ids.Nodup ∧
      (pipeline.Complete → pipeline.Acyclic →
        ∃ order, pipeline.executionOrder = .ok order ∧ pipeline.IsOrder order ∧
          (∀ other, pipeline.IsOrder other →
            Graph.LexLe (pipeline.places order) (pipeline.places other)) ∧
          ∃ graph, pipeline.graph = .ok graph ∧ graph.schedule? = some graph.schedule) := by
  have nodup := reachable.nodup_ids
  refine ⟨nodup, fun complete acyclic => ?_⟩
  obtain ⟨graph, hgraph, hshows⟩ := exists_graph nodup complete
  have hcycle := Graph.cycle?_eq_none hshows.valid (hshows.acyclic acyclic)
  have hschedule := Graph.schedule_isOrder hshows.valid (hshows.acyclic acyclic)
  have hplaces : pipeline.places
      (graph.schedule.filterMap fun vertex => pipeline.ids[vertex]?) = graph.schedule := by
    apply places_filterMap nodup
    intro vertex hv
    exact hshows.size_eq ▸ List.mem_range.mp (hschedule.perm.mem_iff.mp hv)
  have hperm : (graph.schedule.filterMap fun vertex => pipeline.ids[vertex]?).Perm
      pipeline.ids := by
    have := hschedule.perm.filterMap fun vertex => pipeline.ids[vertex]?
    rwa [hshows.size_eq, filterMap_range] at this
  refine ⟨_, executionOrder_eq hgraph hcycle, ?_, fun other hother => ?_, graph, hgraph,
    Graph.schedule?_eq hshows.valid⟩
  · apply hshows.isOrder_of_places complete hperm
    rwa [hplaces]
  · rw [hplaces]
    exact Graph.schedule_le hshows.valid (hshows.isOrder_places nodup hother)

/-- The first pass depends on the last one, which it names twice. -/
def lateDependency : Pipeline Unit :=
  ((Pipeline.empty.add { id := "c", dependencies := ["a", "a"], traversal := .empty }).add
    { id := "b", traversal := .empty }).add { id := "a", traversal := .empty }

theorem dependsOn_lateDependency {id dependency : String}
    (h : lateDependency.DependsOn id dependency) : id = "c" ∧ dependency = "a" := by
  obtain ⟨pass, hpass, rfl, hd⟩ := h
  have hpasses : lateDependency.passes =
      [{ id := "c", dependencies := ["a", "a"], traversal := .empty },
        { id := "b", traversal := .empty }, { id := "a", traversal := .empty }] := rfl
  simp only [hpasses, List.mem_cons, List.not_mem_nil, or_false] at hpass
  rcases hpass with rfl | rfl | rfl
  · exact ⟨rfl, by simpa using hd⟩
  · exact nomatch hd
  · exact nomatch hd

theorem executionOrder_lateDependency :
    lateDependency.executionOrder = .ok ["b", "a", "c"] ∧
      lateDependency.IsOrder ["b", "a", "c"] ∧
      ∀ other, lateDependency.IsOrder other →
        Graph.LexLe [1, 2, 0] (lateDependency.places other) := by
  have reachable : lateDependency.Reachable :=
    ((Reachable.empty.add _).add _).add _
  have complete : lateDependency.Complete := by
    intro id dependency h
    obtain ⟨-, rfl⟩ := dependsOn_lateDependency h
    decide
  have acyclic : lateDependency.Acyclic := by
    intro id h
    obtain ⟨_, _, hlast⟩ := Relation.TransGen.tail'_iff.mp h
    obtain ⟨_, hfirst, _⟩ := Relation.TransGen.head'_iff.mp h
    have hc := (dependsOn_lateDependency hfirst).1
    have ha := (dependsOn_lateDependency hlast).2
    exact absurd (hc.symm.trans ha) (by decide)
  have hrun : lateDependency.executionOrder = .ok ["b", "a", "c"] := rfl
  obtain ⟨order, horder, hrespects, hleast, -⟩ :=
    (executionOrder_least reachable).2 complete acyclic
  obtain rfl : order = ["b", "a", "c"] := Except.ok.inj (horder.symm.trans hrun)
  exact ⟨hrun, hrespects, hleast⟩

/-! ### Pipelines that come in order -/

theorem passes_add {pass : Pass σ} (h : pass.id ∉ pipeline.ids) :
    (pipeline.add pass).passes = pipeline.passes ++ [pass] := by
  have hput : ∀ passes : List (Pass σ), pass.id ∉ passes.map Pass.id →
      putPass pass passes = passes ++ [pass] := by
    intro passes hnew
    induction passes with
    | nil => rfl
    | cons other passes ih =>
      rw [List.map_cons, List.mem_cons, not_or] at hnew
      rw [putPass, if_neg (Ne.symm hnew.1), ih hnew.2, List.cons_append]
  exact hput pipeline.passes h

theorem ids_add {pass : Pass σ} (h : pass.id ∉ pipeline.ids) :
    (pipeline.add pass).ids = pipeline.ids ++ [pass.id] := by
  rw [ids, passes_add h, List.map_append]
  rfl

/-- The passes have ids of their own, and each comes behind everything it depends on. -/
structure InOrder (pipeline : Pipeline σ) : Prop where
  nodup : pipeline.ids.Nodup
  order : pipeline.IsOrder pipeline.ids

theorem InOrder.empty : (Pipeline.empty : Pipeline σ).InOrder where
  nodup := List.nodup_nil
  order := ⟨List.Perm.refl _, fun _ _ _ hsplit => by simp [Pipeline.empty, ids] at hsplit⟩

/-- A new pass that depends on passes that are there comes behind them. -/
theorem InOrder.add {pass : Pass σ} (h : pipeline.InOrder) (hnew : pass.id ∉ pipeline.ids)
    (hthere : ∀ dependency ∈ pass.dependencies, dependency ∈ pipeline.ids) :
    (pipeline.add pass).InOrder := by
  refine ⟨nodup_ids_putPass h.nodup, List.Perm.refl _,
    fun before id after hsplit dependency hdepends => ?_⟩
  rw [ids_add hnew] at hsplit
  obtain ⟨other, hother, rfl, hd⟩ := hdepends
  rw [passes_add hnew, List.mem_append, List.mem_singleton] at hother
  have hold : other ∈ pipeline.passes → other.id ≠ pass.id :=
    fun hmem heq => hnew (heq ▸ List.mem_map_of_mem hmem)
  rcases List.append_eq_append_iff.mp hsplit with ⟨rest, rfl, hrest⟩ | ⟨rest, hids, hrest⟩
  · rcases hother with hother | rfl
    · have hmem : other.id ∈ [pass.id] := hrest ▸ List.mem_append_right _ List.mem_cons_self
      exact absurd (List.mem_singleton.mp hmem) (hold hother)
    · exact List.mem_append_left _ (hthere dependency hd)
  · cases rest with
    | nil =>
      rw [List.append_nil] at hids
      rcases hother with hother | rfl
      · exact absurd (List.cons.inj hrest).1 (hold hother)
      · exact hids ▸ hthere dependency hd
    | cons first rest =>
      obtain ⟨rfl, -⟩ := List.cons.inj hrest
      rcases hother with hother | rfl
      · exact h.order.behind before other.id rest hids dependency ⟨other, hother, rfl, hd⟩
      · exact absurd (hids ▸ List.mem_append_right _ List.mem_cons_self) hnew

/-- Passes that come in order run as they come. -/
theorem InOrder.schedule_eq (h : pipeline.InOrder) :
    pipeline.schedule = .ok pipeline.passes := by
  have complete : pipeline.Complete := by
    intro id dependency hdepends
    obtain ⟨before, after, hsplit⟩ := List.append_of_mem hdepends.mem_ids
    rw [hsplit]
    exact List.mem_append_left _ (h.order.behind before id after hsplit dependency hdepends)
  obtain ⟨graph, hgraph, hshows⟩ := exists_graph h.nodup complete
  have horder := hshows.isOrder_places h.nodup h.order
  rw [hshows.places_ids h.nodup] at horder
  obtain ⟨hacyclic, hschedule⟩ := Graph.schedule_of_isOrder hshows.valid horder
  have hcycle := Graph.cycle?_eq_none hshows.valid hacyclic
  have hsize : graph.size = pipeline.passes.length := by
    rw [hshows.size_eq, ids, List.length_map]
  simp only [schedule, hgraph, hcycle, hschedule, hsize]
  rw [filterMap_range]

end SourceTree.Pipeline
