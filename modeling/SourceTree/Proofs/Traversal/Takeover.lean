import SourceTree.Proofs.Traversal.Reply

/-!
Traversals that decide on some parts outright, without asking for anything, and walk all
others. `Takeover.reply` gives their faults and results for parts of any depth, and
`answer_eq_reply` says that the traversal, given fuel for the depth of the part, answers
just so.
-/
namespace SourceTree

variable {σ : Type}

/-- What becomes of the parts that a traversal decides on; `none` for those that it walks. -/
abbrev Takeover : Type := (part : Part) → part.Value → Option part.Result

/-- A part that stays. -/
def Part.unchanged : (part : Part) → part.Value → part.Result
  | .node, value => some value
  | .token, value => some value
  | .trivia, value => some value
  | .nodes, value => value
  | .separated, value => value
  | .tokens, value => value
  | .trivias, value => value

namespace Takeover

/-- The reply of a traversal whose walks have the given reply. -/
def before (takes : Takeover) (reply : Reply) : Reply where
  faults part value := if (takes part value).isSome then [] else reply.faults part value
  result part value := (takes part value).getD (reply.result part value)

/-- The reply for parts that are at most so many levels deep. -/
def replyWithin (takes : Takeover) (structured : Bool) : Nat → Reply
  | 0 => { faults := fun _ _ => [], result := Part.unchanged }
  | levels + 1 => takes.before ((takes.replyWithin structured levels).walk structured)

def reply (takes : Takeover) (structured : Bool) : Reply where
  faults part value := (takes.replyWithin structured (part.depth value)).faults part value
  result part value := (takes.replyWithin structured (part.depth value)).result part value

variable {takes : Takeover} {structured : Bool}

theorem before_congr {first second : Reply} {request : Request}
    (h : first.AgreeOn second request) :
    (takes.before first).AgreeOn (takes.before second) request := by
  constructor
  · simp only [before, h.1]
  · simp only [before, h.2]

/-- Levels beyond the depth of a part make no difference to it. -/
theorem replyWithin_agree (takes : Takeover) (structured : Bool) {m n : Nat} {request : Request}
    (hm : request.depth ≤ m) (hn : request.depth ≤ n) :
    (takes.replyWithin structured m).AgreeOn (takes.replyWithin structured n) request := by
  induction m generalizing n request with
  | zero =>
    have := request.part.depth_pos request.value
    simp only [Request.depth] at hm
    omega
  | succ m ih =>
    have hpos := request.part.depth_pos request.value
    simp only [Request.depth] at hm hn
    obtain ⟨n, rfl⟩ : ∃ less, n = less + 1 := ⟨n - 1, by omega⟩
    apply before_congr
    apply Reply.walk_congr
    intro other ho
    have hlt : other.depth < request.part.depth request.value := Part.depth_requests ho
    exact ih (by omega) (by omega)

/-- The equation that determines the reply. -/
theorem reply_eq (takes : Takeover) (structured : Bool) (part : Part) (value : part.Value) :
    (takes.reply structured).AgreeOn
      (takes.before ((takes.reply structured).walk structured)) ⟨part, value⟩ := by
  have hpos := part.depth_pos value
  have hself : (takes.reply structured).AgreeOn
      (takes.replyWithin structured (part.depth value - 1 + 1)) ⟨part, value⟩ := by
    rw [show part.depth value - 1 + 1 = part.depth value by omega]
    exact ⟨rfl, rfl⟩
  have hstep : (takes.replyWithin structured (part.depth value - 1 + 1)).AgreeOn
      (takes.before ((takes.reply structured).walk structured)) ⟨part, value⟩ := by
    apply before_congr
    apply Reply.walk_congr
    intro other ho
    have hlt : other.depth < part.depth value := Part.depth_requests ho
    exact replyWithin_agree takes structured (n := other.depth) (by omega) (Nat.le_refl _)
  exact ⟨hself.1.trans hstep.1, hself.2.trans hstep.2⟩

theorem faults_of_some {part : Part} {value : part.Value} {result : part.Result}
    (h : takes part value = some result) : (takes.reply structured).faults part value = [] := by
  rw [(reply_eq takes structured part value).1]
  simp [before, h]

theorem result_of_some {part : Part} {value : part.Value} {result : part.Result}
    (h : takes part value = some result) : (takes.reply structured).result part value = result := by
  rw [(reply_eq takes structured part value).2]
  simp [before, h]

theorem faults_of_none {part : Part} {value : part.Value} (h : takes part value = none) :
    (takes.reply structured).faults part value =
      ((takes.reply structured).walk structured).faults part value := by
  rw [(reply_eq takes structured part value).1]
  simp [before, h]

theorem result_of_none {part : Part} {value : part.Value} (h : takes part value = none) :
    (takes.reply structured).result part value =
      ((takes.reply structured).walk structured).result part value := by
  rw [(reply_eq takes structured part value).2]
  simp [before, h]

end Takeover

namespace Traversal

/-- The traversal decides as `takes` says and walks all other parts; a hook that only asks
for the walk of its part makes no difference. -/
structure Decides (traversal : Traversal σ) (takes : Takeover) : Prop where
  taken : ∀ part value result, takes part value = some result →
    ∃ hook, traversal.hookFor part value = some hook ∧ hook value = .pure result
  walked : ∀ part value, takes part value = none →
    ∀ hook, traversal.hookFor part value = some hook → hook value = Plan.walk part value

variable {traversal : Traversal σ} {takes : Takeover}

theorem Decides.modest (h : traversal.Decides takes) : traversal.Modest := by
  intro part value hook hhook
  cases ht : takes part value with
  | some result =>
    obtain ⟨other, hother, hplan⟩ := h.taken part value result ht
    obtain rfl : hook = other := Option.some.inj (hhook.symm.trans hother)
    rw [hplan]
    exact .pure result
  | none =>
    rw [h.walked part value ht hook hhook]
    exact .ask ⟨rfl, rfl⟩ fun result => .pure result

theorem Decides.round_reply (h : traversal.Decides takes) (part : Part) (value : part.Value)
    (state : σ) :
    traversal.round (takes.reply traversal.structured).visit part value state =
      (takes.reply traversal.structured).visit part value state := by
  cases ht : takes part value with
  | some result =>
    obtain ⟨hook, hhook, hplan⟩ := h.taken part value result ht
    simp only [round, hhook, hplan, Reply.visit]
    rw [Takeover.faults_of_some ht, Takeover.result_of_some ht]
    rfl
  | none =>
    have hwalk : ((takes.reply traversal.structured).walk traversal.structured).visit part value
        state = (takes.reply traversal.structured).visit part value state := by
      simp only [Reply.visit]
      rw [Takeover.faults_of_none ht, Takeover.result_of_none ht]
    rw [← hwalk, ← Reply.walk_visit, round]
    cases hhook : traversal.hookFor part value with
    | none => rfl
    | some hook =>
      simp only [h.walked part value ht hook hhook, Plan.run_walk]
      rfl

/-- A traversal that decides as `takes` says answers with the reply of `takes`. -/
theorem answer_eq_reply (h : traversal.Decides takes) {fuel : Nat} {part : Part}
    {value : part.Value} (enough : 2 * part.depth value ≤ fuel) (state : σ) :
    answer fuel traversal .visit part value state =
      .verdict ((takes.reply traversal.structured).faults part value)
        ((takes.reply traversal.structured).result part value) state :=
  answer_eq_visit h.modest h.round_reply enough state

/-- The same for a whole tree, whose root has to stay. -/
theorem transform_eq_reply (h : traversal.Decides takes) (tree : Node) {fuel : Nat}
    (enough : tree.fuel ≤ fuel) (state : σ) :
    traversal.transform fuel tree state =
      .verdict ((takes.reply traversal.structured).faults .node tree ++
          if ((takes.reply traversal.structured).result .node tree).isNone then
            [.rootRemoved tree.kind]
          else [])
        (((takes.reply traversal.structured).result .node tree).getD tree) state := by
  have hdepth : 2 * Part.depth .node tree ≤ fuel := enough
  rw [transform, visit, answer_eq_reply h hdepth]
  cases (takes.reply traversal.structured).result .node tree <;>
    cases (takes.reply traversal.structured).faults .node tree <;> rfl

end Traversal

end SourceTree
