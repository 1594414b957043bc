import SourceTree.Proofs.Pipeline.Order

/-!
Pipelines that cannot run. A pipeline is refused for the first dependency that is no pass,
or, if all are there, for a cycle of dependencies. It is then refused for every tree and
before any pass has run; whatever else goes wrong when it is applied is a fault of a pass.
-/
namespace SourceTree

variable {σ : Type}

/-- The pass itself fails with this fault on some tree. -/
def Pass.Raises (pass : Pass σ) (fault : Fault) : Prop :=
  ∃ fuel tree state after, pass.traversal.transform fuel tree state = .failed fault after

namespace Pipeline

variable {pipeline : Pipeline σ}

/-- The first pass with a dependency that is no pass, and the first such dependency. -/
def unknown? (pipeline : Pipeline σ) : Option (String × String) :=
  pipeline.passes.findSome? fun pass =>
    (pass.dependencies.find? fun dependency => dependency ∉ pipeline.ids).map fun dependency =>
      (pass.id, dependency)

/-- There is no order of the passes because of this fault, and every application ends with it
at once, in the state it began in. -/
def Refuses (pipeline : Pipeline σ) (fault : Fault) : Prop :=
  pipeline.executionOrder = .error fault ∧
    ∀ fuel tree state, pipeline.apply fuel tree state = .failed fault state

theorem unknown?_eq_none_iff : pipeline.unknown? = none ↔ pipeline.Complete := by
  simp only [unknown?, List.findSome?_eq_none_iff, Option.map_eq_none_iff, List.find?_eq_none,
    decide_eq_true_eq, not_not, Complete, DependsOn]
  constructor
  · rintro h id dependency ⟨pass, hpass, -, hd⟩
    exact h pass hpass dependency hd
  · intro h pass hpass dependency hd
    exact h pass.id dependency ⟨pass, hpass, rfl, hd⟩

/-! ### Unknown dependencies -/

theorem passEdges_error {ids : List String} {dependencies : List String} {dependency : String}
    (h : dependencies.find? (fun dependency => dependency ∉ ids) = some dependency) (id : String)
    (target : Nat) :
    passEdges ids id target dependencies = .error (.unknownDependency id dependency) := by
  induction dependencies with
  | nil => exact nomatch h
  | cons first dependencies ih =>
    rw [passEdges]
    by_cases hfirst : first ∈ ids
    · have hfound : ids.findIdx? (· == first) = some (ids.idxOf first) := findIdx?_of_mem hfirst
      rw [List.find?_cons_of_neg (by simpa using hfirst)] at h
      simp only [hfound, ih h]
    · have hnone : ids.findIdx? (· == first) = none := by
        rw [List.findIdx?_eq_none_iff]
        intro id hid
        exact beq_eq_false_iff_ne.mpr fun heq => hfirst (heq ▸ hid)
      rw [List.find?_cons_of_pos (by simpa using hfirst)] at h
      obtain rfl := Option.some.inj h
      simp only [hnone]

/-- The passes before the one at fault, and the dependencies before the one at fault, are all
in order. -/
theorem edgesFrom_error {ids : List String} {passes : List (Pass σ)} {id dependency : String}
    (h : passes.findSome? (fun pass =>
      (pass.dependencies.find? fun dependency => dependency ∉ ids).map fun dependency =>
        (pass.id, dependency)) = some (id, dependency)) (target : Nat) :
    edgesFrom ids target passes = .error (.unknownDependency id dependency) := by
  induction passes generalizing target with
  | nil => exact nomatch h
  | cons pass passes ih =>
    rw [edgesFrom]
    cases hfind : pass.dependencies.find? fun dependency => dependency ∉ ids with
    | some found =>
      rw [List.findSome?_cons, hfind] at h
      obtain ⟨rfl, rfl⟩ := Prod.mk.inj (Option.some.inj h)
      simp only [passEdges_error hfind]
    | none =>
      rw [List.findSome?_cons, hfind] at h
      have hpresent : ∀ other ∈ pass.dependencies, other ∈ ids := by
        simpa using List.find?_eq_none.mp hfind
      simp only [passEdges_eq hpresent, ih h]

/-! ### Refusals -/

theorem schedule_of_executionOrder {fault : Fault}
    (h : pipeline.executionOrder = .error fault) : pipeline.schedule = .error fault := by
  rw [executionOrder] at h
  split at h
  · rename_i found hschedule
    rw [hschedule, Except.error.inj h]
  · cases h

/-- The order and every application fail for the same reason. -/
theorem refuses_iff_schedule {fault : Fault} :
    pipeline.Refuses fault ↔ pipeline.schedule = .error fault := by
  refine ⟨fun h => schedule_of_executionOrder h.1, fun h => ⟨?_, fun fuel tree state => ?_⟩⟩
  · rw [executionOrder, h]
  · rw [apply, h]

theorem schedule_of_unknown? {id dependency : String}
    (h : pipeline.unknown? = some (id, dependency)) :
    pipeline.schedule = .error (.unknownDependency id dependency) := by
  rw [schedule, graph, edgesFrom_error h]

/-- Dependencies run against paths. -/
theorem Shows.acyclic_of_graph {graph : Graph} (h : Shows graph pipeline)
    (complete : pipeline.Complete) (acyclic : graph.Acyclic) : pipeline.Acyclic := by
  have hpath : ∀ id dependency, Relation.TransGen pipeline.DependsOn id dependency →
      graph.Path (pipeline.ids.idxOf dependency) (pipeline.ids.idxOf id) := by
    intro id dependency hdepends
    induction hdepends with
    | single hstep => exact .single (h.edge_of_dependsOn complete hstep)
    | tail _ hstep ih => exact .head (h.edge_of_dependsOn complete hstep) ih
  exact fun id hcycle => acyclic _ (hpath id id hcycle)

/-- A pipeline whose dependencies are all there is refused for a pass on a cycle, or runs its
passes. -/
theorem schedule_cases (nodup : pipeline.ids.Nodup) (complete : pipeline.Complete) :
    (∃ id, pipeline.schedule = .error (.cycle id) ∧
        Relation.TransGen pipeline.DependsOn id id) ∨
      pipeline.Acyclic ∧ ∃ passes, pipeline.schedule = .ok passes := by
  obtain ⟨graph, hgraph, hshows⟩ := exists_graph nodup complete
  cases hcycle : graph.cycle? with
  | some vertex =>
    have hpath := Graph.path_of_cycle? hshows.valid hcycle
    have hschedule : pipeline.schedule = .error (.cycle (pipeline.ids.getD vertex "")) := by
      simp only [schedule, hgraph, hcycle]
    exact .inl ⟨_, hschedule, hshows.transGen_of_path hpath⟩
  | none =>
    have hacyclic := Graph.acyclic_of_cycle? hshows.valid hcycle
    have hschedule : pipeline.schedule =
        .ok (graph.schedule.filterMap fun vertex => pipeline.passes[vertex]?) := by
      simp only [schedule, hgraph, hcycle]
    exact .inr ⟨hshows.acyclic_of_graph complete hacyclic, _, hschedule⟩

/-! ### Faults of passes -/

/-- Only passes of the pipeline are scheduled. -/
theorem subset_of_schedule {passes : List (Pass σ)} (h : pipeline.schedule = .ok passes) :
    passes ⊆ pipeline.passes := by
  rw [schedule] at h
  split at h
  · cases h
  · split at h
    · cases h
    · obtain rfl := Except.ok.inj h
      intro pass hpass
      obtain ⟨vertex, -, hvertex⟩ := List.mem_filterMap.mp hpass
      exact List.mem_of_getElem? hvertex

/-- A run of passes fails only with the fault of one of them. -/
theorem raises_of_runPasses {fuel : Node → Nat} {passes : List (Pass σ)} {tree : Node}
    {state after : σ} {fault : Fault}
    (h : runPasses fuel passes tree state = .failed fault after) :
    ∃ pass ∈ passes, pass.Raises fault := by
  induction passes generalizing tree state with
  | nil => cases h
  | cons pass passes ih =>
    rw [runPasses] at h
    cases hrun : pass.traversal.transform (fuel tree) tree state with
    | done result next =>
      rw [hrun] at h
      obtain ⟨other, hother, hraises⟩ := ih h
      exact ⟨other, List.mem_cons_of_mem _ hother, hraises⟩
    | failed found next =>
      rw [hrun] at h
      obtain ⟨rfl, rfl⟩ := Outcome.failed.inj h
      exact ⟨pass, List.mem_cons_self, fuel tree, tree, state, next, hrun⟩
    | starved =>
      rw [hrun] at h
      cases h

theorem apply_failed {fuel : Node → Nat} {tree : Node} {state after : σ} {fault : Fault}
    (h : pipeline.apply fuel tree state = .failed fault after) :
    pipeline.Refuses fault ∨ ∃ pass ∈ pipeline.passes, pass.Raises fault := by
  rw [apply] at h
  split at h
  · rename_i found hschedule
    obtain ⟨rfl, -⟩ := Outcome.failed.inj h
    exact .inl (refuses_iff_schedule.mpr hschedule)
  · rename_i passes hschedule
    obtain ⟨pass, hpass, hraises⟩ := raises_of_runPasses h
    exact .inr ⟨pass, subset_of_schedule hschedule hpass, hraises⟩

/-! ### When a pipeline is refused -/

theorem refuses_unknownDependency_iff (nodup : pipeline.ids.Nodup) {id dependency : String} :
    pipeline.Refuses (.unknownDependency id dependency) ↔
      pipeline.unknown? = some (id, dependency) := by
  rw [refuses_iff_schedule]
  refine ⟨fun h => ?_, schedule_of_unknown?⟩
  cases hfound : pipeline.unknown? with
  | some found =>
    rw [schedule_of_unknown? hfound] at h
    obtain ⟨rfl, rfl⟩ := Fault.unknownDependency.inj (Except.error.inj h)
    rfl
  | none =>
    rcases schedule_cases nodup (unknown?_eq_none_iff.mp hfound) with
      ⟨other, hother, -⟩ | ⟨-, passes, hpasses⟩
    · cases hother.symm.trans h
    · cases hpasses.symm.trans h

theorem refuses_cycle_iff (nodup : pipeline.ids.Nodup) (complete : pipeline.Complete) :
    ((∃ id, pipeline.Refuses (.cycle id)) ↔ ¬ pipeline.Acyclic) ∧
      ∀ id, pipeline.Refuses (.cycle id) → Relation.TransGen pipeline.DependsOn id id := by
  simp only [refuses_iff_schedule]
  rcases schedule_cases nodup complete with ⟨id, hid, hcycle⟩ | ⟨acyclic, passes, hpasses⟩
  · refine ⟨⟨fun _ acyclic => acyclic id hcycle, fun _ => ⟨id, hid⟩⟩, fun other hother => ?_⟩
    obtain rfl := Fault.cycle.inj (Except.error.inj (hid.symm.trans hother))
    exact hcycle
  · refine ⟨⟨?_, fun hcyclic => absurd acyclic hcyclic⟩, fun other hother => ?_⟩
    · rintro ⟨other, hother⟩
      cases hpasses.symm.trans hother
    · cases hpasses.symm.trans hother

/-- A pipeline is refused for an unknown dependency exactly when there is one, and for the
first; if there is none, it is refused for a cycle exactly when there is one, and the pass
that is named lies on a cycle. It is refused in the same way when the order of its passes is
asked for and when it is applied, to whatever tree; any other fault of an application is one
that a pass raises. -/
theorem refuses_iff (reachable : pipeline.Reachable) :
    ((∃ id dependency, pipeline.Refuses (.unknownDependency id dependency)) ↔
        ¬ pipeline.Complete) ∧
      (∀ id dependency, pipeline.Refuses (.unknownDependency id dependency) ↔
        pipeline.unknown? = some (id, dependency)) ∧
      (pipeline.Complete →
        ((∃ id, pipeline.Refuses (.cycle id)) ↔ ¬ pipeline.Acyclic) ∧
          ∀ id, pipeline.Refuses (.cycle id) → Relation.TransGen pipeline.DependsOn id id) ∧
      (∀ fault, pipeline.executionOrder = .error fault → pipeline.Refuses fault) ∧
      ∀ fuel tree state fault after, pipeline.apply fuel tree state = .failed fault after →
        pipeline.Refuses fault ∨ ∃ pass ∈ pipeline.passes, pass.Raises fault := by
  have nodup := reachable.nodup_ids
  refine ⟨⟨?_, fun hmissing => ?_⟩, fun id dependency => refuses_unknownDependency_iff nodup,
    refuses_cycle_iff nodup,
    fun fault h => refuses_iff_schedule.mpr (schedule_of_executionOrder h),
    fun fuel tree state fault after => apply_failed⟩
  · rintro ⟨id, dependency, h⟩ complete
    have hsome := (refuses_unknownDependency_iff nodup).mp h
    rw [unknown?_eq_none_iff.mpr complete] at hsome
    cases hsome
  · obtain ⟨found, hfound⟩ := Option.ne_none_iff_exists'.mp (mt unknown?_eq_none_iff.mp hmissing)
    exact ⟨found.1, found.2, (refuses_unknownDependency_iff nodup).mpr hfound⟩

/-- The pass `print` comes first and depends on a cycle, but does not lie on it. -/
def behindCycle : Pipeline Unit :=
  ((Pipeline.empty.add { id := "print", dependencies := ["fold"], traversal := .empty }).add
    { id := "fold", dependencies := ["lift"], traversal := .empty }).add
    { id := "lift", dependencies := ["fold", "fold"], traversal := .empty }

theorem refuses_behindCycle :
    behindCycle.Refuses (.cycle "lift") ∧ Relation.TransGen behindCycle.DependsOn "lift" "lift" ∧
      ¬ behindCycle.Acyclic := by
  have reachable : behindCycle.Reachable := ((Reachable.empty.add _).add _).add _
  obtain ⟨-, -, hcycle, hrefuses, -⟩ := refuses_iff reachable
  have complete : behindCycle.Complete := unknown?_eq_none_iff.mp (by decide)
  have hlift : behindCycle.Refuses (.cycle "lift") := hrefuses _ rfl
  obtain ⟨hiff, hon⟩ := hcycle complete
  exact ⟨hlift, hon "lift" hlift, hiff.mp ⟨"lift", hlift⟩⟩

end Pipeline

end SourceTree
