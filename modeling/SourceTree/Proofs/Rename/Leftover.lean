import SourceTree.Proofs.Rename.Exact

/-!
What renaming leaves behind. A token that is renamed keeps its trivia as they are, so a token
inside them that should be renamed too is not. Those are the only ones left: for a predicate that
looks at kinds and texts, no token of the new tree satisfies it exactly if none was hidden in
the trivia of another.
-/
namespace SourceTree

section Spares

variable (p : Token → Bool)

/-- The part is not a token that satisfies `p`. -/
def Request.isSpared : Request → Bool
  | ⟨.token, token⟩ => !p token
  | _ => true

/-- No token satisfies `p`, be it in the tree or in a tree inside trivia, at any depth. -/
def Node.spares (node : Node) : Bool := node.every (Request.isSpared p) true

def Trivia.spares (trivia : Trivia) : Bool := trivia.every (Request.isSpared p) true

/-- No token inside the trivia of this one satisfies `p`. -/
def Token.sparesInside (token : Token) : Bool :=
  (token.leading ++ token.trailing).all (Trivia.spares p)

/-- The predicate looks at nothing but the kind and the text of a token. -/
def OfSpelling : Prop := ∀ a b : Token, a.kind = b.kind → a.text = b.text → p a = p b

variable {p}

theorem Token.every_isSpared_iff (token : Token) :
    token.every (Request.isSpared p) true = true ↔
      p token = false ∧ token.sparesInside p = true := by
  cases token with
  | mk label kind text leading trailing =>
    simp only [Token.every, Request.isSpared, Request.token, Bool.and_eq_true, Bool.not_eq_true',
      true_and, and_assoc, triviasEvery_iff, Token.sparesInside, Token.leading, Token.trailing,
      List.all_append, List.all_eq_true, Trivia.spares]

/-- What a token that is renamed has inside its trivia stays there. -/
theorem Token.sparesInside_withText (token : Token) (text : String) :
    (token.withText text).sparesInside p = token.sparesInside p := rfl

theorem Part.isSpared_of_rebuilt (hspelling : OfSpelling p) {R : Part.Relation} {text : String}
    {part : Part} {before after : part.Value} (h : part.Rebuilt R true before after)
    (hwalked : Takeover.renaming p text part before = none) :
    Request.isSpared p ⟨part, after⟩ = true := by
  cases part with
  | token =>
    have hsame : p after = p before := hspelling after before h.kind h.text
    simp [Request.isSpared, hsame, renaming_token_eq_none_iff.mp hwalked]
  | node | trivia | nodes | separated | tokens | trivias => rfl

end Spares

/-- The tokens that satisfy `p` in the new part are those that were hidden in the old one. -/
structure Part.Cleared (p : Token → Bool) (part : Part) (before after : part.Value) : Prop where
  fresh : part.Fresh before after
  hidden : Request.every (Request.isSpared p) true ⟨part, after⟩ = true →
    ∀ token ∈ Request.hits p ⟨part, before⟩, token.sparesInside p = true
  cleared : OfSpelling p →
    (∀ token ∈ Request.hits p ⟨part, before⟩, token.sparesInside p = true) →
    Request.every (Request.isSpared p) true ⟨part, after⟩ = true

section Cleared

variable {p : Token → Bool} {text : String}

theorem Token.cleared_withText (hnew : ∀ token : Token, token.text = text → p token = false)
    {token : Token} (hp : p token = true) :
    Part.Cleared p .token token (token.withText text) := by
  have hevery : Request.every (Request.isSpared p) true ⟨.token, token.withText text⟩ = true ↔
      token.sparesInside p = true := by
    refine (Token.every_isSpared_iff _).trans ?_
    rw [Token.sparesInside_withText]
    exact and_iff_right (hnew _ (Token.text_withText token text))
  refine ⟨token.fresh_withText text, ?_, ?_⟩
  · rw [Request.hits_of_hit hp, List.forall_mem_singleton]
    exact hevery.mp
  · intro _ hinside
    rw [Request.hits_of_hit hp, List.forall_mem_singleton] at hinside
    exact hevery.mpr hinside

theorem renaming_makes_cleared (hnew : ∀ token : Token, token.text = text → p token = false)
    (request : Request) :
    ((Takeover.renaming p text).reply true).Makes (Part.Cleared p) request := by
  apply Takeover.makes (Q := fun _ => True)
  · intro part value _ request _
    trivial
  · intro part before after h
    exact h.fresh
  · exact renaming_taken fun token hp => Token.cleared_withText hnew hp
  · intro part value after _ ht _ hthreads hrebuilt hfresh
    -- both sides go over the smaller parts, which `hthreads` pairs up
    have hits_iff : (∀ token ∈ Request.hits p ⟨part, value⟩, token.sparesInside p = true) ↔
        ∀ request ∈ part.requests true value, ∀ token ∈ request.hits p,
          token.sparesInside p = true := by
      rw [Request.hits_of_walked ht, List.forall_mem_flatMap]
    refine ⟨hfresh, fun h => hits_iff.mpr ?_, fun hspelling h => ?_⟩
    · rintro ⟨part, before⟩ hr
      obtain ⟨after, hafter, hcleared⟩ := hthreads.exists_result_of_mem hr
      rw [Change.related_stateless] at hcleared
      exact hcleared.hidden (Request.every_of_mem_requests id h hafter)
    · apply Request.every_of_requests (Part.isSpared_of_rebuilt hspelling hrebuilt ht)
        (Part.isTrim_of_rebuilt hrebuilt)
      rintro ⟨part, after⟩ hr
      obtain ⟨before, hbefore, hcleared⟩ := hthreads.exists_of_mem hr
      rw [Change.related_stateless] at hcleared
      exact hcleared.cleared hspelling (hits_iff.mp h _ hbefore)
  · trivial

/-- Where the new text is not one to be renamed, no token that satisfies `p` is left unless it
stands in the trivia of one that was renamed; and there it is left. -/
theorem spares_renameTokens (hnew : ∀ token : Token, token.text = text → p token = false)
    (tree : Node) :
    ∃ result, tree.renameTokens p text = .done result () ∧
      (result.spares p = true → ∀ token ∈ tree.hits p, token.sparesInside p = true) ∧
      (OfSpelling p → (∀ token ∈ tree.hits p, token.sparesInside p = true) →
        result.spares p = true) := by
  obtain ⟨result, hdone, hcleared⟩ :=
    renaming_decides.transform_makes (renaming_makes_cleared hnew (.node tree)) (Nat.le_refl _) ()
  exact ⟨result, hdone, hcleared.hidden, hcleared.cleared⟩

theorem ofSpelling_hasText (text : String) : OfSpelling (Token.hasText text) := by
  intro a b _ htext
  rw [Token.hasText, Token.hasText, htext]

theorem hasText_of_ne {old new : String} (h : new ≠ old) (token : Token)
    (htext : token.text = new) : Token.hasText old token = false := by
  simp [Token.hasText, htext, h]

/-- The comment of `z` mentions `x`, and is renamed. -/
theorem spares_renameTokens_mentioned :
    (∀ token : Token, token.text = "y" → Token.hasText "x" token = false) ∧
    ∃ result, (mentioningX "z").renameTokens (Token.hasText "x") "y" = .done result () ∧
      result.spares (Token.hasText "x") = true := by
  have hnew : ∀ token : Token, token.text = "y" → Token.hasText "x" token = false :=
    hasText_of_ne (by decide)
  obtain ⟨result, hdone, -, hcleared⟩ := spares_renameTokens hnew (mentioningX "z")
  exact ⟨hnew, result, hdone, hcleared (ofSpelling_hasText "x") (by decide)⟩

/-- The comment of `x` mentions `x`. The name becomes `y`, and the comment stays as it is. -/
theorem renameTokens_hiddenMention :
    (∀ token : Token, token.text = "y" → Token.hasText "x" token = false) ∧
    ∃ result, (mentioningX "x").renameTokens (Token.hasText "x") "y" = .done result () ∧
      result.text = "xy" ∧ result.spares (Token.hasText "x") = false :=
  ⟨hasText_of_ne (by decide), .identifierName (.mk none .identifier "y"
    [.ofTree .documentationComment (.identifierName (.ofText .identifier "x"))] []), rfl,
    by decide, by decide⟩

/-- A predicate that looks at trivia may come to hold where it did not: here of the token `z`,
once its comment is renamed. -/
example :
    let p := fun token : Token =>
      token.hasText "x" || (token.hasText "z" && token.fullText == "yz")
    (∀ token ∈ (mentioningX "z").hits p, token.sparesInside p = true) ∧
      ((mentioningX "z").renameTokens p "y").value?.map (Node.spares p) = some false := by
  decide

end Cleared

end SourceTree
