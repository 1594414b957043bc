import SourceTree.Form
import SourceTree.Proofs.Traversal.Kept
import SourceTree.Proofs.Usings.Order

/-!
Putting the using directives of a whole tree in order. The traversal reaches every
compilation unit and every namespace, also those in trees inside trivia, and what it leaves
is in order everywhere. A second run changes nothing.
-/
namespace SourceTree

variable {σ : Type}

theorem hookFor_usingNormalizerBy (sorter : Usings.Sorter) (node : Node) :
    (usingNormalizerBy sorter : Traversal σ).hookFor .node node =
      if node.kind = .namespaceDeclaration ∨ node.kind = .compilationUnit then
        some (Usings.normalizeHook sorter)
      else none := by
  have hempty : (Traversal.empty : Traversal σ).hookFor .node node = none := rfl
  rw [usingNormalizerBy, Traversal.hookFor_withHook_node, Traversal.hookFor_withHook_node, hempty]
  by_cases hnamespace : node.kind = .namespaceDeclaration <;>
    by_cases hunit : node.kind = .compilationUnit <;> simp [hnamespace, hunit]

/-- A change that does not give up on the usings of a node. -/
theorem Node.mapUsings?_eq {node : Node} {f : List Node → Option (List Node)}
    {g : List Node → List Node}
    (h : ∀ usings, node.usings? = some usings → f usings = some (g usings)) :
    node.mapUsings? f = some (node.mapUsings g) := by
  rw [Node.mapUsings?, Node.mapUsings]
  cases husings : node.usings? with
  | none => rfl
  | some usings => simp only [h usings husings, Option.map_some]

/-- Insertion never gives up. -/
theorem Node.mapUsings?_insertion (node : Node) :
    (node.mapUsings? fun usings => Usings.insertion (Usings.dedupe usings)) =
      some (node.mapUsings Usings.normalize) :=
  Node.mapUsings?_eq fun _ _ => rfl

theorem usingNormalizer_reworks :
    (usingNormalizer : Traversal σ).Reworks
      (fun node walked =>
        if node.kind = .namespaceDeclaration ∨ node.kind = .compilationUnit then
          walked.mapUsings Usings.normalize
        else walked)
      (fun _ => none) where
  node node hook hhook := by
    rw [usingNormalizer, hookFor_usingNormalizerBy] at hhook
    split at hhook
    · rename_i hkind
      obtain rfl : _ = hook := Option.some.inj hhook
      simp only [hkind, if_true, Usings.normalizeHook, Node.mapUsings?_insertion]
      congr 1
      funext walked
      cases walked <;> rfl
    · cases hhook
  node_free node hhook walked := by
    rw [usingNormalizer, hookFor_usingNormalizerBy] at hhook
    split at hhook
    · cases hhook
    · rename_i hother
      exact if_neg hother
  token token hook hhook := by cases hhook
  token_free _ _ := rfl
  other part value hnode htoken := by
    cases part with
    | node => exact absurd rfl hnode
    | token => exact absurd rfl htoken
    | trivia | nodes | separated | tokens | trivias => rfl

/-! ### Usings of a node -/

namespace Node

theorem usings?_eq_some_iff {node : Node} {usings : List Node} :
    node.usings? = some usings ↔
      (node.kind = .compilationUnit ∨ node.kind = .namespaceDeclaration) ∧
        node.slots.get? ⟨"usings", .nodes⟩ = some (.nodes usings) := by
  rw [usings?]
  constructor
  · intro h
    split at h
    · rename_i hkind
      obtain ⟨content, hget, rfl⟩ := Option.map_eq_some_iff.mp h
      cases content
      exact ⟨hkind, hget⟩
    · cases h
  · rintro ⟨hkind, hget⟩
    rw [if_pos hkind, get?, hget]
    rfl

theorem mem_requests_of_usings? {node : Node} {usings : List Node}
    (h : node.usings? = some usings) : ⟨.nodes, usings⟩ ∈ Part.requests true .node node :=
  Slots.mem_requests_of_get? (usings?_eq_some_iff.mp h).2 List.mem_cons_self

theorem usings?_withUsings {node : Node} {usings : List Node} (h : node.usings? = some usings)
    (others : List Node) : (node.withUsings others).usings? = some others := by
  cases node with
  | mk info kind slots =>
    obtain ⟨hkind, hget⟩ := usings?_eq_some_iff.mp h
    exact usings?_eq_some_iff.mpr ⟨hkind, slots.get?_set _ (Slots.mem_of_get? hget)⟩

theorem mem_requests_withUsings {node : Node} {others : List Node} {request : Request}
    (h : request ∈ Part.requests true .node (node.withUsings others)) :
    request = ⟨.nodes, others⟩ ∨ request ∈ Part.requests true .node node := by
  cases node with
  | mk info kind slots =>
    have hset : request ∈ (slots.set ⟨"usings", .nodes⟩ (.nodes others)).requests := h
    exact (Slots.mem_requests_set hset).imp_left List.mem_singleton.mp

theorem bare_withUsings {node : Node} {usings : List Node} (h : node.usings? = some usings) :
    (node.withUsings usings).bare = node.bare := by
  cases node with
  | mk info kind slots =>
    have hset : slots.set ⟨"usings", .nodes⟩ (.nodes usings) = slots :=
      Slots.set_get? (usings?_eq_some_iff.mp h).2
    exact congrArg (fun slots => (Node.mk {} kind slots).bare) hset

/-- What was there and what is there now. -/
theorem Rebuilt.usings {R : Part.Relation} {before after : Node} (h : before.Rebuilt R after)
    {usings : List Node} (hafter : after.usings? = some usings) :
    ∃ olds, before.usings? = some olds ∧ R .nodes olds usings := by
  cases h with
  | @mk info kind before after label h =>
    obtain ⟨hkind, hget⟩ := usings?_eq_some_iff.mp hafter
    obtain ⟨content, hcontent⟩ := before.exists_get? _ (Slots.mem_of_get? hget)
    obtain ⟨result, hresult, hrebuilt⟩ := h.get? hcontent
    obtain rfl : result = .nodes usings := Option.some.inj (hresult.symm.trans hget)
    cases hrebuilt with
    | nodes hnodes => exact ⟨_, usings?_eq_some_iff.mpr ⟨hkind, hcontent⟩, hnodes⟩

end Node

/-! ### One level -/

/-- The usings of the part, if it is a node and has any, pass a test. -/
def Request.usingsPass (test : List Node → Bool) : Request → Bool
  | ⟨.node, node⟩ => (Node.usings? node).all test
  | _ => true

/-- The usings of every compilation unit and namespace of a tree pass a test, also of those in
trees inside trivia. -/
def Node.everyUsings (test : List Node → Bool) (tree : Node) : Bool :=
  tree.every (Request.usingsPass test) true

/-- The same kinds, for nodes and for lists of nodes. -/
def Part.SameKinds : Part.Relation
  | .node, before, after => Node.kind after = Node.kind before
  | .nodes, before, after => List.map Node.kind after = List.map Node.kind before
  | _, _, _ => True

theorem Part.sameKinds_of_rebuilt {R : Part.Relation}
    (kinds : ∀ part before after, R part before after → part.SameKinds before after)
    {structured : Bool} {part : Part} {before after : part.Value}
    (h : part.Rebuilt R structured before after) : part.SameKinds before after := by
  cases part with
  | node =>
    cases h with
    | mk label h => rfl
  | nodes =>
    have hkinds : List.Forall₂ (fun a b : Node => b.kind = a.kind) before after :=
      h.imp (kinds .node)
    exact map_eq_of_forall₂ hkinds
  | token | trivia | separated | tokens | trivias => trivial

/-- A test of usings that looks at their kinds only. -/
def Usings.ByKinds (test : List Node → Bool) : Prop :=
  ∀ {usings others : List Node}, usings.map Node.kind = others.map Node.kind →
    test usings = test others

theorem Part.usingsPass_of_rebuilt {test : List Node → Bool} (htest : Usings.ByKinds test)
    {R : Part.Relation}
    (kinds : ∀ part before after, R part before after → part.SameKinds before after)
    {structured : Bool} {part : Part} {before after : part.Value}
    (hrebuilt : part.Rebuilt R structured before after)
    (h : Request.usingsPass test ⟨part, before⟩ = true) :
    Request.usingsPass test ⟨part, after⟩ = true := by
  cases part with
  | node =>
    rw [Request.usingsPass, Option.all_eq_true]
    intro usings husings
    obtain ⟨olds, holds, hnodes⟩ := Node.Rebuilt.usings hrebuilt husings
    rw [htest (kinds .nodes olds usings hnodes)]
    simpa only [Request.usingsPass, holds, Option.all_some] using h
  | token | trivia | nodes | separated | tokens | trivias => rfl

/-- What becomes of a part that was walked. -/
def Part.normalize : (part : Part) → part.Value → part.Value
  | .node, value => Node.mapUsings value Usings.normalize
  | _, value => value

theorem Node.mapUsings_of_kind {node : Node}
    (h : ¬ (node.kind = .namespaceDeclaration ∨ node.kind = .compilationUnit))
    (f : List Node → List Node) : node.mapUsings f = node := by
  rw [Node.mapUsings, Node.usings?, if_neg fun hkind => h hkind.symm]

theorem round_usingNormalizer {visit : Visit σ} {part : Part} {value walked : part.Value}
    {start next : σ} (hwalk : visit.walk true part value start = .done (part.unchanged walked) next)
    (hkinds : part.SameKinds value walked) :
    usingNormalizer.round visit part value start =
      .done (part.unchanged (part.normalize walked)) next := by
  cases part with
  | node =>
    have hkind : Node.kind walked = Node.kind value := hkinds
    rw [usingNormalizer_reworks.round_node_of_walk hwalk, ← hkind]
    split
    · rfl
    · rename_i hother
      rw [Part.normalize, Node.mapUsings_of_kind hother]
      rfl
  | token | trivia | nodes | separated | tokens | trivias => exact hwalk

theorem Part.fresh_normalize {part : Part} {value walked : part.Value}
    (h : part.Fresh value walked) : part.Fresh value (part.normalize walked) := by
  cases part with
  | node =>
    cases husings : Node.usings? walked with
    | none => simpa only [Part.normalize, Node.mapUsings, husings] using h
    | some usings =>
      intro hsame
      simp only [Part.normalize, Node.mapUsings, husings, Part.same, Part.unchanged,
        Option.any_some, Node.withUsings, Node.set, Node.same_rebuild] at hsame
      cases hsame
  | token | trivia | nodes | separated | tokens | trivias => exact h

theorem Part.sameKinds_normalize {part : Part} {value walked : part.Value}
    (h : part.SameKinds value walked) : part.SameKinds value (part.normalize walked) := by
  cases part with
  | node =>
    have hkind : (Node.mapUsings walked Usings.normalize).kind = Node.kind walked := by
      rw [Node.mapUsings]
      split
      · exact Node.kind_rebuild _ _
      · rfl
    exact hkind.trans h
  | token | trivia | nodes | separated | tokens | trivias => exact h

theorem Threads.state_eq {change : Change σ}
    (h : ∀ part before start after next, change part before start after next → next = start)
    {requests results : List Request} {start next : σ}
    (hthreads : Threads change requests start results next) : next = start := by
  induction hthreads with
  | nil state => rfl
  | cons hfirst _ ih => rw [ih, h _ _ _ _ _ hfirst]

/-- What every run makes of a part. -/
structure Part.Reshapes (part : Part) (before : part.Value) (start : σ) (after : part.Value)
    (next : σ) : Prop where
  state : next = start
  fresh : part.Fresh before after
  kinds : part.SameKinds before after

/-- One level of a run whose visits of the smaller parts reshape them. -/
theorem usingNormalizer_reshapes {change : Change σ}
    (hchange : ∀ part before start after next, change part before start after next →
      Part.Reshapes part before start after next)
    {visit : Visit σ} {part : Part} {value : part.Value}
    (h : ∀ request ∈ part.requests true value, visit.Makes change request) (start : σ) :
    ∃ walked next, visit.walk true part value start = .done (part.unchanged walked) next ∧
      Threads change (part.requests true value) start (part.requests true walked) next ∧
      part.Rebuilt change.related true value walked ∧
      part.Reshapes value start (part.normalize walked) next ∧
      usingNormalizer.round visit part value start =
        .done (part.unchanged (part.normalize walked)) next := by
  obtain ⟨walked, next, hwalk, hthreads, hrebuilt, hfresh⟩ :=
    Visit.walk_makes (fun _ _ _ ⟨_, _, h⟩ => (hchange _ _ _ _ _ h).fresh) h start
  have hkinds := Part.sameKinds_of_rebuilt (fun _ _ _ ⟨_, _, h⟩ => (hchange _ _ _ _ _ h).kinds)
    hrebuilt
  have hstate := hthreads.state_eq fun _ _ _ _ _ h => (hchange _ _ _ _ _ h).state
  exact ⟨walked, next, hwalk, hthreads, hrebuilt,
    ⟨hstate, Part.fresh_normalize hfresh, Part.sameKinds_normalize hkinds⟩,
    round_usingNormalizer hwalk hkinds⟩

/-! ### In order everywhere -/

/-- A part that a run leaves: no surplus separators, and usings in order. -/
def Request.isSettled (request : Request) : Bool :=
  request.isTrim && request.usingsPass Usings.areIncreasing

theorem Request.isSettled_of_part {part : Part} {value : part.Value} (h : part ≠ .node)
    (htrim : Request.isTrim ⟨part, value⟩ = true) : Request.isSettled ⟨part, value⟩ = true := by
  cases part with
  | node => exact absurd rfl h
  | token | trivia | nodes | separated | tokens | trivias =>
    exact Bool.and_eq_true_iff.mpr ⟨htrim, rfl⟩

/-- A walked node is in order throughout when its own usings are, too. -/
theorem every_isSettled_mapUsings {node : Node}
    (hbelow : ∀ request ∈ Part.requests true .node node,
      request.every Request.isSettled true = true)
    (hplain : ∀ usings, node.usings? = some usings → Usings.areDirectives usings = true) :
    (node.mapUsings Usings.normalize).every Request.isSettled true = true := by
  cases husings : node.usings? with
  | none =>
    have htest : Request.isSettled (.node node) = true := by
      simp [Request.isSettled, Request.isTrim, Request.usingsPass, Request.node, husings]
    rw [Node.mapUsings, husings]
    exact Request.every_of_requests htest rfl hbelow
  | some usings =>
    have hnew := Node.usings?_withUsings husings (Usings.normalize usings)
    have htest : Request.isSettled (.node (node.withUsings (Usings.normalize usings))) = true := by
      simp [Request.isSettled, Request.isTrim, Request.usingsPass, Request.node, hnew,
        Usings.areIncreasing_normalize (hplain usings husings)]
    rw [Node.mapUsings, husings]
    refine Request.every_of_requests htest rfl fun request hr => ?_
    rcases Node.mem_requests_withUsings hr with rfl | hr
    · -- the entries are among the old ones
      have hold := hbelow _ (Node.mem_requests_of_usings? husings)
      simp only [Request.every, Bool.and_eq_true, nodesEvery_iff] at hold ⊢
      exact ⟨rfl, fun entry he => hold.2 entry (Usings.mem_of_mem_normalize he)⟩
    · exact hbelow request hr

/-- What a run makes of a part whose usings are directives. -/
structure Part.Normalizes (part : Part) (before : part.Value) (start : σ) (after : part.Value)
    (next : σ) : Prop extends Part.Reshapes part before start after next where
  settled : Request.every Request.isSettled true ⟨part, after⟩ = true

theorem usingNormalizer_normalizes {visit : Visit σ} {part : Part} {value : part.Value}
    (hplain : Request.usingsPass Usings.areDirectives ⟨part, value⟩ = true)
    (h : ∀ request ∈ part.requests true value, visit.Makes Part.Normalizes request) :
    (usingNormalizer.round visit).Makes Part.Normalizes ⟨part, value⟩ := by
  intro start
  obtain ⟨walked, next, -, hthreads, hrebuilt, hreshapes, hround⟩ :=
    usingNormalizer_reshapes (fun _ _ _ _ _ h => h.toReshapes) h start
  have hbelow : ∀ request ∈ part.requests true walked,
      request.every Request.isSettled true = true := by
    rintro ⟨smaller, result⟩ hr
    obtain ⟨_, _, _, _, hchange⟩ := hthreads.exists_of_mem hr
    exact hchange.settled
  refine ⟨part.normalize walked, next, ⟨hreshapes, ?_⟩, hround⟩
  by_cases hpart : part = .node
  · subst hpart
    have hwalked := Part.usingsPass_of_rebuilt Usings.areDirectives_eq_of_kinds
      (fun _ _ _ ⟨_, _, h⟩ => h.kinds) hrebuilt hplain
    rw [Request.usingsPass, Option.all_eq_true] at hwalked
    exact every_isSettled_mapUsings hbelow hwalked
  · have htrim := Part.isTrim_of_rebuilt hrebuilt
    cases part with
    | node => exact absurd rfl hpart
    | token | trivia | nodes | separated | tokens | trivias =>
      exact Request.every_of_requests (Request.isSettled_of_part hpart htrim) htrim hbelow

/-! ### A second run -/

/-- What a run makes of a part that is in order throughout. -/
structure Part.Keeps (part : Part) (before : part.Value) (start : σ) (after : part.Value)
    (next : σ) : Prop extends Part.Reshapes part before start after next where
  alike : part.Alike before after

theorem usingNormalizer_keeps {visit : Visit σ} {part : Part} {value : part.Value}
    (hsettled : Request.isSettled ⟨part, value⟩ = true)
    (h : ∀ request ∈ part.requests true value, visit.Makes Part.Keeps request) :
    (usingNormalizer.round visit).Makes Part.Keeps ⟨part, value⟩ := by
  intro start
  obtain ⟨walked, next, -, -, hrebuilt, hreshapes, hround⟩ :=
    usingNormalizer_reshapes (fun _ _ _ _ _ h => h.toReshapes) h start
  obtain ⟨htrim, hordered⟩ := Bool.and_eq_true_iff.mp hsettled
  have halike := Part.alike_of_rebuilt (fun _ _ _ ⟨_, _, h⟩ => h.alike) hrebuilt htrim
  refine ⟨part.normalize walked, next, ⟨hreshapes, ?_⟩, hround⟩
  cases part with
  | node =>
    cases husings : Node.usings? walked with
    | none => simpa only [Part.normalize, Node.mapUsings, husings] using halike
    | some usings =>
      obtain ⟨olds, holds, _, _, hchange⟩ := Node.Rebuilt.usings hrebuilt husings
      have hequal : bareNodes usings = bareNodes olds := hchange.alike
      have hold : Usings.areIncreasing olds = true := by
        simpa only [Request.usingsPass, holds, Option.all_some] using hordered
      have hnew : Usings.areIncreasing usings = true := by
        rw [← Usings.areIncreasing_bareNodes, hequal, Usings.areIncreasing_bareNodes, hold]
      simp only [Part.normalize, Node.mapUsings, husings, Usings.normalize_eq_self hnew]
      exact (Node.bare_withUsings husings).trans halike
  | token | trivia | nodes | separated | tokens | trivias => exact halike

/-- Where all usings are using directives, a run leaves the usings of every compilation unit
and namespace in strictly increasing order, and a second run gives an equal tree. -/
theorem usingNormalizer_idempotent {tree : Node}
    (h : tree.everyUsings Usings.areDirectives = true) (state : σ) :
    ∃ result, (∀ fuel, tree.fuel ≤ fuel →
        usingNormalizer.transform fuel tree state = .done result state) ∧
      result.everyUsings Usings.areIncreasing = true ∧
      ∃ again, (∀ fuel, result.fuel ≤ fuel →
          usingNormalizer.transform fuel result state = .done again state) ∧
        again.equal result = true := by
  obtain ⟨result, next, hresult, hdone⟩ := usingNormalizer_reworks.modest.transform_makes
    (fun _ _ _ hevery hbelow =>
      usingNormalizer_normalizes (Request.test_of_every hevery) hbelow) h state
  obtain rfl := hresult.state
  obtain ⟨again, last, hagain, hsecond⟩ := usingNormalizer_reworks.modest.transform_makes
    (fun _ _ _ hevery hbelow =>
      usingNormalizer_keeps (Request.test_of_every hevery) hbelow) hresult.settled next
  obtain rfl := hagain.state
  have hordered :
      (Request.node result).every (Request.usingsPass Usings.areIncreasing) true = true :=
    Request.every_imp (fun _ => Bool.and_eq_true_iff.mp) hresult.settled
  exact ⟨result, hdone, hordered, again, hsecond, (Node.equal_iff _ _).mpr hagain.alike⟩

/-- A unit with a namespace in it; the documentation of the namespace holds another unit, with
a directive twice. All usings are out of order. -/
def nestedUsings : Node :=
  let directive (text : String) : Node :=
    .usingDirective (Build.keyword "using") none (.identifierName (Build.identifier text))
      (Build.punctuation ";")
  let inner : Node := .compilationUnit [directive "Zeta", directive "Alpha", directive "Zeta"] []
    Build.endOfFile
  let space : Node := .namespaceDeclaration
    (.mk none .keyword "namespace" [.ofTree .documentationComment inner] [])
    (.identifierName (Build.identifier "Demo")) (Build.punctuation "\x7b")
    [directive "Acme", directive "System"] [] (Build.punctuation "\x7d")
  .compilationUnit [directive "B", directive "A"] [space] Build.endOfFile

theorem usingNormalizer_nestedUsings :
    nestedUsings.everyUsings Usings.areDirectives = true ∧
    nestedUsings.usings?.all Usings.areIncreasing = false ∧
    ∃ result, usingNormalizer.transform nestedUsings.fuel nestedUsings () = .done result () ∧
      result.everyUsings Usings.areIncreasing = true ∧
      ∃ again, usingNormalizer.transform result.fuel result () = .done again () ∧
        again.equal result = true := by
  have hplain : nestedUsings.everyUsings Usings.areDirectives = true := by decide
  obtain ⟨result, hdone, hordered, again, hagain, hequal⟩ := usingNormalizer_idempotent hplain ()
  exact ⟨hplain, by decide, result, hdone _ (Nat.le_refl _), hordered, again,
    hagain _ (Nat.le_refl _), hequal⟩

end SourceTree
