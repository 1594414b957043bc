import SourceTree.Proofs.Equality
import SourceTree.Proofs.Traversal.Every

/-!
Shapes. Two trees have the same shape if they become the same when every token is replaced by
one that does not tell them apart. A tree without surplus separators is determined by its shape
and its tokens, so trees of one shape whose tokens are equal are equal.
-/
namespace SourceTree

/-- A token that stands for any. -/
def Token.blank : Token := .ofText .endOfFile ""

section Shape

variable {f g : Token → Token}

/-- Lists in two parts can be compared part by part, if the first parts are of one length. -/
theorem map_append_inj {as bs cs ds : List Token} (hlength : as.length = bs.length)
    (h : (as ++ cs).map g = (bs ++ ds).map g) : as.map g = bs.map g ∧ cs.map g = ds.map g := by
  rw [List.map_append, List.map_append] at h
  exact List.append_inj h (by rw [List.length_map, List.length_map, hlength])

theorem Node.length_tokens_eq {a b : Node} (h : a.mapTokens f = b.mapTokens f) :
    a.tokens.length = b.tokens.length := by
  have htokens : (a.tokens.map f).length = (b.tokens.map f).length := by
    rw [← a.tokens_mapTokens, ← b.tokens_mapTokens, h]
  rwa [List.length_map, List.length_map] at htokens

theorem Slot.length_tokens_eq {shape : Shape} {a b : Slot shape}
    (h : a.mapTokens f = b.mapTokens f) : a.tokensIn.length = b.tokensIn.length := by
  have htokens : (a.tokensIn.map f).length = (b.tokensIn.map f).length := by
    rw [← a.tokens_mapTokens, ← b.tokens_mapTokens, h]
  rwa [List.length_map, List.length_map] at htokens

theorem tokensBetween_nil (nodes : List Node) : tokensBetween nodes [] = tokensAll nodes := by
  induction nodes with
  | nil => rfl
  | cons node nodes ih => rw [tokensBetween, tokensAll, ih]

mutual

/-- Trees of one shape are told apart by their tokens alone. -/
theorem Node.mapTokens_eq_of_shape : (a b : Node) → a.isTrim false = true → b.isTrim false = true →
    a.mapTokens f = b.mapTokens f → a.tokens.map g = b.tokens.map g → a.mapTokens g = b.mapTokens g
  | .mk _ kind slots, .mk _ kind' slots', ha, hb, hshape, htokens => by
    simp only [Node.mapTokens, Node.mk.injEq, true_and] at hshape
    obtain ⟨rfl, hslots⟩ := hshape
    simp only [Node.isTrim, Node.every, Bool.and_eq_true] at ha hb
    rw [Node.mapTokens, Node.mapTokens, Slots.mapTokens_eq_of_shape slots slots' ha.2 hb.2
      (eq_of_heq hslots) htokens]
termination_by structural a => a

theorem Slots.mapTokens_eq_of_shape : {fields : List Field} → (a b : Slots fields) →
    a.every Request.isTrim false = true → b.every Request.isTrim false = true →
    a.mapTokens f = b.mapTokens f → a.tokens.map g = b.tokens.map g → a.mapTokens g = b.mapTokens g
  | _, .nil, .nil, _, _, _, _ => rfl
  | _, .cons slot rest, .cons slot' rest', ha, hb, hshape, htokens => by
    simp only [Slots.mapTokens, Slots.cons.injEq] at hshape
    simp only [Slots.every, Bool.and_eq_true] at ha hb
    obtain ⟨hfirst, hrest⟩ := map_append_inj (Slot.length_tokens_eq hshape.1) htokens
    rw [Slots.mapTokens, Slots.mapTokens,
      Slot.mapTokens_eq_of_shape slot slot' ha.1 hb.1 hshape.1 hfirst,
      Slots.mapTokens_eq_of_shape rest rest' ha.2 hb.2 hshape.2 hrest]
termination_by structural _ a => a

theorem Slot.mapTokens_eq_of_shape : {shape : Shape} → (a b : Slot shape) →
    a.every Request.isTrim false = true → b.every Request.isTrim false = true →
    a.mapTokens f = b.mapTokens f → a.tokensIn.map g = b.tokensIn.map g →
    a.mapTokens g = b.mapTokens g
  | _, .node a, .node b, ha, hb, hshape, htokens => by
    rw [Slot.mapTokens, Slot.mapTokens,
      Node.mapTokens_eq_of_shape a b ha hb (Slot.node.inj hshape) htokens]
  | _, .optNode none, .optNode none, _, _, _, _ => rfl
  | _, .optNode none, .optNode (some b), _, _, hshape, _ => by cases hshape
  | _, .optNode (some a), .optNode none, _, _, hshape, _ => by cases hshape
  | _, .optNode (some a), .optNode (some b), ha, hb, hshape, htokens => by
    rw [Slot.mapTokens, Slot.mapTokens, Node.mapTokens_eq_of_shape a b ha hb
      (Option.some.inj (Slot.optNode.inj hshape)) htokens]
  | _, .token a, .token b, _, _, _, htokens => by
    rw [Slot.mapTokens, Slot.mapTokens, (List.cons.inj htokens).1]
  | _, .optToken a, .optToken b, _, _, _, htokens => by
    rw [Slot.mapTokens, Slot.mapTokens]
    cases a <;> cases b <;> simp_all [Slot.tokensIn]
  | _, .nodes as, .nodes bs, ha, hb, hshape, htokens => by
    simp only [Slot.every, Bool.and_eq_true] at ha hb
    rw [Slot.tokensIn, Slot.tokensIn, ← tokensBetween_nil, ← tokensBetween_nil] at htokens
    have hnodes := mapTokensBetween_eq_of_shape as bs ha.2 hb.2 (Slot.nodes.inj hshape)
      (Nat.zero_le _) (Nat.zero_le _) rfl htokens
    rw [Slot.mapTokens, Slot.mapTokens, hnodes.1]
  | _, .tokens as, .tokens bs, _, _, _, htokens => congrArg Slot.tokens htokens
  | _, .separated ⟨as, ss⟩, .separated ⟨bs, ts⟩, ha, hb, hshape, htokens => by
    simp only [Slot.every, Bool.and_eq_true, Request.isTrim, decide_eq_true_eq] at ha hb
    simp only [Slot.mapTokens, Slot.separated.injEq, Separated.mk.injEq] at hshape
    obtain ⟨hes, hss⟩ := mapTokensBetween_eq_of_shape as bs ha.1.2 hb.1.2 hshape.1 ha.1.1 hb.1.1
      hshape.2 htokens
    rw [Slot.mapTokens, Slot.mapTokens, hes, hss]
termination_by structural _ a => a

theorem mapTokensBetween_eq_of_shape : (as bs : List Node) → {ss ts : List Token} →
    nodesEvery Request.isTrim false as = true → nodesEvery Request.isTrim false bs = true →
    mapTokensAll f as = mapTokensAll f bs → ss.length ≤ as.length → ts.length ≤ bs.length →
    ss.map f = ts.map f → (tokensBetween as ss).map g = (tokensBetween bs ts).map g →
    mapTokensAll g as = mapTokensAll g bs ∧ ss.map g = ts.map g
  | [], [], [], [], _, _, _, _, _, _, _ => ⟨rfl, rfl⟩
  | [], b :: bs, _, _, _, _, hshape, _, _, _, _ => by cases hshape
  | a :: as, [], _, _, _, _, hshape, _, _, _, _ => by cases hshape
  | a :: as, b :: bs, [], [], ha, hb, hshape, _, _, _, htokens => by
    simp only [mapTokensAll, List.cons.injEq] at hshape
    simp only [nodesEvery, Bool.and_eq_true] at ha hb
    obtain ⟨hfirst, hrest⟩ := map_append_inj (Node.length_tokens_eq hshape.1) htokens
    have hmore := mapTokensBetween_eq_of_shape as bs ha.2 hb.2 hshape.2 (Nat.zero_le _)
      (Nat.zero_le _) rfl hrest
    rw [mapTokensAll, mapTokensAll, Node.mapTokens_eq_of_shape a b ha.1 hb.1 hshape.1 hfirst,
      hmore.1]
    exact ⟨rfl, rfl⟩
  | a :: as, b :: bs, s :: ss, t :: ts, ha, hb, hshape, has, hbs, hseparators, htokens => by
    simp only [mapTokensAll, List.cons.injEq] at hshape
    simp only [nodesEvery, Bool.and_eq_true] at ha hb
    obtain ⟨hfirst, hrest⟩ := map_append_inj (Node.length_tokens_eq hshape.1) htokens
    obtain ⟨hseparator, hrest⟩ := List.cons.inj hrest
    have hmore := mapTokensBetween_eq_of_shape as bs ha.2 hb.2 hshape.2
      (Nat.le_of_succ_le_succ has) (Nat.le_of_succ_le_succ hbs) (List.cons.inj hseparators).2 hrest
    rw [mapTokensAll, mapTokensAll, Node.mapTokens_eq_of_shape a b ha.1 hb.1 hshape.1 hfirst,
      hmore.1, List.map_cons, List.map_cons, hseparator, hmore.2]
    exact ⟨rfl, rfl⟩
termination_by structural a => a

end

/-- Trees of one shape with equal tokens are equal. -/
theorem Node.equal_of_shape {a b : Node} (ha : a.isTrim false = true) (hb : b.isTrim false = true)
    (hshape : a.mapTokens f = b.mapTokens f)
    (htokens : a.tokens.map Token.bare = b.tokens.map Token.bare) : a.equal b = true := by
  rw [Node.equal_iff, a.bare_eq_mapTokens, b.bare_eq_mapTokens]
  exact Node.mapTokens_eq_of_shape a b ha hb hshape htokens

end Shape

end SourceTree
