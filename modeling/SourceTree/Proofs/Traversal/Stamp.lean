import Mathlib.Data.List.Perm.Basic
import SourceTree.Identity
import SourceTree.Proofs.Traversal.Coverage
import SourceTree.Proofs.Traversal.Kept

/-!
Numbers in post-order. A default hook that walks a node first and then leaves a number on a
copy of it numbers the nodes of a tree so that children come before their parents. The tree
keeps its structure and its text, each node keeps its other metadata, and no node of the tree
is left in the result.
-/
namespace SourceTree

/-! ### Post-order -/

/-- The part itself, if it is a node. -/
def Request.ownNode : Request → List Node
  | ⟨.node, node⟩ => [node]
  | _ => []

/-- The nodes of the smaller parts, and then the part itself if it is a node. -/
@[semireducible] def Request.postorder (structured : Bool) (request : Request) : List Node :=
  (request.part.requests structured request.value).attach.flatMap (fun smaller =>
    smaller.1.postorder structured) ++ request.ownNode
termination_by request.depth
decreasing_by exact Part.depth_requests smaller.2

/-- The nodes of a tree, each after those below it. Trees inside trivia are reached through
the token that has the trivia, where `structured` says so. -/
def Node.postorder (structured : Bool) (node : Node) : List Node :=
  (Request.node node).postorder structured

section Level

variable {structured : Bool}

theorem Request.postorder_eq (part : Part) (value : part.Value) :
    Request.postorder structured ⟨part, value⟩ =
      (part.requests structured value).flatMap (Request.postorder structured) ++
        Request.ownNode ⟨part, value⟩ := by
  rw [Request.postorder]
  congr 1
  conv_rhs => rw [← List.attach_map_subtype_val (part.requests structured value), List.flatMap_map]

theorem Request.ownNode_eq_nil {part : Part} (value : part.Value) (h : part ≠ .node) :
    Request.ownNode ⟨part, value⟩ = [] := by
  cases part with
  | node => exact absurd rfl h
  | token | trivia | nodes | separated | tokens | trivias => rfl

/-- The nodes that visits come to, in another order. -/
theorem Request.postorder_perm (request : Request) :
    (request.postorder structured).Perm (request.visited structured) := by
  induction request using Request.induction structured with
  | step part value ih =>
    have hbelow : ((part.requests structured value).flatMap (Request.postorder structured)).Perm
        ((part.requests structured value).flatMap (Request.visited structured)) :=
      List.Perm.flatMap_left _ ih
    rw [Request.postorder_eq]
    by_cases hpart : part = .node
    · subst hpart
      change List.Perm _ (Node.visited structured value)
      rw [Node.visited_eq]
      exact (hbelow.append_right _).trans (List.perm_append_singleton value _)
    · rw [Request.visited_eq value hpart, Request.ownNode_eq_nil value hpart, List.append_nil]
      exact hbelow

end Level

/-! ### Stamps -/

theorem Metadata.get?_insert_other (map : Metadata) {key other : String} (h : other ≠ key)
    (value : Note) : get? (insert map key value) other = get? map other := by
  have hother : (other == key) = false := beq_eq_false_iff_ne.mpr h
  induction map with
  | nil => simp only [insert, get?, List.lookup_cons, hother]
  | cons entry rest ih =>
    obtain ⟨k, v⟩ := entry
    by_cases hk : k = key
    · subst hk
      simp only [insert, get?, if_pos, List.lookup_cons, hother]
    · simp only [get?] at ih
      simp only [insert, get?, hk, if_false, List.lookup_cons, ih]

/-- A new node with the number of the old one left on it under `key`, and otherwise the same. -/
structure Node.Stamped (key : String) (old : Node × Nat) (new : Node) : Prop where
  number : new.metadata.get? key = some (.number old.2)
  others : ∀ other, other ≠ key → new.metadata.get? other = old.1.metadata.get? other
  equal : new.equal old.1 = true
  label : new.label = none

theorem Node.label_of_stamped {key : String} {olds : List (Node × Nat)} {news : List Node}
    (h : List.Forall₂ (Node.Stamped key) olds news) {new : Node} (hnew : new ∈ news) :
    new.label = none := by
  induction h with
  | nil => exact absurd hnew List.not_mem_nil
  | cons hfirst _ ih =>
    rcases List.mem_cons.mp hnew with rfl | hnew
    · exact hfirst.label
    · exact ih hnew

/-- Nodes get numbers from `start` on, in order, and `next` is the first that is left. -/
structure Numbers (key : String) (olds : List Node) (start : Nat) (news : List Node)
    (next : Nat) : Prop where
  stamped : List.Forall₂ (Node.Stamped key) (olds.zipIdx start) news
  count : next = start + olds.length

namespace Numbers

variable {key : String}

theorem nil (start : Nat) : Numbers key [] start [] start := ⟨.nil, rfl⟩

theorem append {as bs cs ds : List Node} {start next last : Nat}
    (h : Numbers key as start bs next) (h' : Numbers key cs next ds last) :
    Numbers key (as ++ cs) start (bs ++ ds) last := by
  constructor
  · rw [List.zipIdx_append, ← h.count]
    exact List.rel_append h.stamped h'.stamped
  · rw [h'.count, h.count, List.length_append, Nat.add_assoc]

end Numbers

/-- The nodes of a part are numbered in post-order and nothing else changes. -/
structure Part.Stamps (key : String) (structured : Bool) (part : Part) (before : part.Value)
    (start : Nat) (after : part.Value) (next : Nat) : Prop where
  fresh : part.Fresh before after
  alike : part.Alike before after
  numbers : Numbers key (Request.postorder structured ⟨part, before⟩) start
    (Request.postorder structured ⟨part, after⟩) next

theorem Threads.numbers {key : String} {structured : Bool} {requests results : List Request}
    {start next : Nat} (h : Threads (Part.Stamps key structured) requests start results next) :
    Numbers key (requests.flatMap (Request.postorder structured)) start
      (results.flatMap (Request.postorder structured)) next := by
  induction h with
  | nil state => exact .nil state
  | cons hfirst _ ih => exact hfirst.numbers.append ih

namespace Traversal

/-- Numbers the nodes that it comes to, each after those below it. -/
def stamper (key : String) (structured : Bool) : Traversal Nat :=
  (empty.withStructured structured).withHook .default fun node => do
    let walked ← Plan.walk .node node
    let count ← Plan.getState
    Plan.setState (count + 1)
    return walked.map (Node.annotate · key (.number count))

theorem stamper_modest (key : String) (structured : Bool) : (stamper key structured).Modest := by
  intro part value hook hhook
  cases part with
  | node =>
    obtain rfl : _ = hook := Option.some.inj hhook
    exact .ask ⟨rfl, rfl⟩ fun walked => .get fun count => .put _ (.pure _)
  | token | trivia | nodes | separated | tokens | trivias => cases hhook

variable {key : String} {structured : Bool}

theorem round_stamper_node {visit : Visit Nat} {node walked : Node} {start count : Nat}
    (h : visit.walk structured .node node start = .done (some walked) count) :
    (stamper key structured).round visit .node node start =
      .done (some (walked.annotate key (.number count))) (count + 1) := by
  change Plan.run _ (Plan.walk .node node >>= _) _ start = _
  rw [Plan.run_seq, Plan.run_walk]
  change (visit.walk structured .node node start).bind _ = _
  rw [h]
  rfl

theorem round_stamper_of_part {visit : Visit Nat} {part : Part} (value : part.Value)
    (h : part ≠ .node) (start : Nat) :
    (stamper key structured).round visit part value start =
      visit.walk structured part value start := by
  cases part with
  | node => exact absurd rfl h
  | token | trivia | nodes | separated | tokens | trivias => rfl

theorem requests_annotate (node : Node) (value : Note) :
    Part.requests structured .node (node.annotate key value) =
      Part.requests structured .node node := by
  cases node
  rfl

/-- What is left on the walked node, when the nodes below have their numbers. -/
theorem stamped_annotate {R : Part.Relation} {node walked : Node} (hrebuilt : node.Rebuilt R walked)
    (halike : Part.Alike .node node walked) (count : Nat) :
    Node.Stamped key (node, count) (walked.annotate key (.number count)) := by
  cases hrebuilt with
  | mk label h =>
    refine ⟨Metadata.get?_insert_self _ _ _, fun other hother => ?_, ?_, rfl⟩
    · exact Metadata.get?_insert_other _ hother _
    · exact (Node.equal_iff _ _).mpr halike

/-- One level: where the smaller parts are numbered, so is the part. -/
theorem stamper_makes {visit : Visit Nat} {part : Part} {value : part.Value}
    (htrim : Request.isTrim ⟨part, value⟩ = true)
    (h : ∀ request ∈ part.requests structured value,
      visit.Makes (Part.Stamps key structured) request) :
    ((stamper key structured).round visit).Makes (Part.Stamps key structured) ⟨part, value⟩ := by
  intro start
  obtain ⟨walked, count, hwalk, hthreads, hrebuilt, hfresh⟩ :=
    Visit.walk_makes (fun _ _ _ ⟨_, _, h⟩ => h.fresh) h start
  have halike := Part.alike_of_rebuilt (fun _ _ _ ⟨_, _, h⟩ => h.alike) hrebuilt htrim
  by_cases hpart : part = .node
  · subst hpart
    have hstamped : Node.Stamped key (value, count) _ := stamped_annotate hrebuilt halike count
    refine ⟨_, count + 1, ⟨fun hsame => ?_, ?_, ?_⟩, round_stamper_node hwalk⟩
    · simp [Part.same, Part.unchanged, Node.same, hstamped.label] at hsame
    · exact (Node.equal_iff _ _).mp hstamped.equal
    · rw [Request.postorder_eq, Request.postorder_eq, requests_annotate]
      exact hthreads.numbers.append ⟨.cons hstamped .nil, rfl⟩
  · refine ⟨walked, count, ⟨hfresh, halike, ?_⟩, ?_⟩
    · rw [Request.postorder_eq, Request.postorder_eq, Request.ownNode_eq_nil _ hpart,
        Request.ownNode_eq_nil _ hpart, List.append_nil, List.append_nil]
      exact hthreads.numbers
    · rw [round_stamper_of_part value hpart]
      exact hwalk

/-- A default hook that walks each node and then leaves the next number on a copy of it
transforms every tree without surplus separators into an equal one, with the same text. The
nodes have their numbers in post-order and keep their other metadata, and none of them is an
object of the tree. -/
theorem transform_stamper (key : String) (structured : Bool) {tree : Node}
    (htrim : tree.isTrim structured = true) (first : Nat) :
    ∃ result, (∀ fuel, tree.fuel ≤ fuel →
        (stamper key structured).transform fuel tree first =
          .done result (first + (tree.postorder structured).length)) ∧
      result.equal tree = true ∧ result.text = tree.text ∧
      List.Forall₂ (Node.Stamped key) ((tree.postorder structured).zipIdx first)
        (result.postorder structured) ∧
      ∀ new ∈ result.visited structured, ∀ old ∈ tree.visited structured,
        old.same new = false := by
  obtain ⟨result, next, hstamps, hdone⟩ :=
    (stamper_modest key structured).transform_makes (fun _ _ _ h hbelow =>
      stamper_makes (Request.test_of_every h) hbelow) htrim first
  have hequal : result.equal tree = true := (Node.equal_iff _ _).mpr hstamps.alike
  refine ⟨result, fun fuel enough => ?_, hequal, Node.text_eq_of_equal hequal,
    hstamps.numbers.stamped, fun new hnew old _ => ?_⟩
  · rw [hdone fuel enough, hstamps.numbers.count]
    rfl
  · have hmem := (Request.postorder_perm (.node result)).mem_iff.mpr hnew
    simp [Node.same, Node.label_of_stamped hstamps.numbers.stamped hmem]

/-- Two arguments with a name in the trivia between them, all of them objects. -/
def labelledPair : Node := (commentedPair.labelFrom 0).1

/-- The tree behind the comma has its number before the second argument, and the list is
last. -/
theorem transform_labelledPair :
    labelledPair.isTrim true = true ∧
    (labelledPair.postorder true).map Node.text = ["a", "x", "b", "(a,xb)"] ∧
    ∃ result, (stamper "order" true).transform labelledPair.fuel labelledPair 0 = .done result 4 ∧
      result.equal labelledPair = true ∧ result.text = "(a,xb)" ∧
      List.Forall₂ (Node.Stamped "order") ((labelledPair.postorder true).zipIdx 0)
        (result.postorder true) ∧
      ∀ new ∈ result.visited true, ∀ old ∈ labelledPair.visited true, old.same new = false := by
  have htrim : labelledPair.isTrim true = true := by decide
  have hcount : (labelledPair.postorder true).length = 4 := by decide
  obtain ⟨result, hdone, hequal, htext, hstamped, hnew⟩ :=
    transform_stamper "order" true htrim 0
  refine ⟨htrim, by decide, result, ?_, hequal, htext.trans (by decide), hstamped, hnew⟩
  rw [hdone _ (Nat.le_refl _), hcount]

end Traversal

end SourceTree
