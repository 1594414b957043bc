import SourceTree.Documentation
import SourceTree.Proofs.Identity
import SourceTree.Proofs.Traversal.FirstToken

/-!
Documentation in front of a tree. Attaching it changes the first token only: documentation in
front of that token goes, the new comment stands behind the last line end that is left, and all
other trivia stay. So attaching twice is as attaching the second time only.
-/
namespace SourceTree

/-! ### Trivia in front of a token -/

/-- Where `insertAfterLast` cuts a list: in front of the end that has nothing to go behind. -/
theorem insertAfterLast_eq {α : Type} (p : α → Bool) (x : α) (xs : List α) :
    ∃ front back, xs = front ++ back ∧ insertAfterLast p x xs = front ++ x :: back ∧
      (∀ a ∈ back, p a = false) ∧ ∀ last ∈ front.getLast?, p last = true := by
  let rest := xs.reverse.dropWhile fun a => !p a
  let tail := (xs.reverse.takeWhile fun a => !p a).reverse
  have hxs : xs = rest.reverse ++ tail := by
    rw [← List.reverse_append, List.takeWhile_append_dropWhile, List.reverse_reverse]
  have htake : xs.take (xs.length - tail.length) = rest.reverse := by
    conv_lhs => rw [hxs]
    exact List.take_left' (by simp)
  refine ⟨rest.reverse, tail, hxs, congrArg (· ++ x :: tail) htake, fun a ha => ?_,
    fun last hlast => ?_⟩
  · simpa using List.all_eq_true.mp List.all_takeWhile a (List.mem_reverse.mp ha)
  · have hrest : (xs.reverse.dropWhile fun a => !p a).head? = some last := by
      rwa [List.getLast?_reverse] at hlast
    have hhead := List.head?_dropWhile_not (fun a => !p a) xs.reverse
    rw [hrest] at hhead
    simpa using hhead

/-- The trivia that are no documentation, with a comment put in behind the last line end among
them, or first where there is none. -/
def Trivia.Documents (comment : Trivia) (before after : List Trivia) : Prop :=
  ∃ front back, (before.filter fun trivia => !trivia.isDocumentation) = front ++ back ∧
    after = front ++ comment :: back ∧ (∀ trivia ∈ back, trivia.kind ≠ .endOfLine) ∧
    ∀ last ∈ front.getLast?, last.kind = .endOfLine

theorem documents_replaceDocumentation (leading : List Trivia) (comment : Trivia) :
    Trivia.Documents comment leading (replaceDocumentation leading comment) := by
  obtain ⟨front, back, hleading, hresult, hback, hfront⟩ :=
    insertAfterLast_eq (fun trivia => trivia.kind == .endOfLine) comment
      (leading.filter fun trivia => !trivia.isDocumentation)
  exact ⟨front, back, hleading, hresult, fun trivia ht => beq_eq_false_iff_ne.mp (hback trivia ht),
    fun last hlast => beq_iff_eq.mp (hfront last hlast)⟩

namespace Trivia.Documents

variable {comment : Trivia} {before after : List Trivia}

/-- What is left when the comment is taken out is what was there without documentation. -/
theorem filter_eq (h : Documents comment before after) (hcomment : comment.isDocumentation = true) :
    (after.filter fun trivia => !trivia.isDocumentation) =
      before.filter fun trivia => !trivia.isDocumentation := by
  obtain ⟨front, back, hbefore, rfl, -, -⟩ := h
  have hkept : (front ++ back).filter (fun trivia => !trivia.isDocumentation) = front ++ back := by
    rw [← hbefore, List.filter_filter]
    simp
  rw [hbefore, ← hkept, List.filter_append, List.filter_append, List.filter_cons_of_neg]
  simpa using hcomment

/-- The comment is the first documentation. -/
theorem find?_eq (h : Documents comment before after) (hcomment : comment.isDocumentation = true) :
    after.find? Trivia.isDocumentation = some comment := by
  obtain ⟨front, back, hbefore, rfl, -, -⟩ := h
  have hfront : front.find? Trivia.isDocumentation = none := by
    refine List.find?_eq_none.mpr fun trivia ht => ?_
    have hmem : trivia ∈ before.filter fun trivia => !trivia.isDocumentation :=
      hbefore ▸ List.mem_append_left back ht
    simpa using (List.mem_filter.mp hmem).2
  rw [List.find?_append, hfront, Option.none_or, List.find?_cons_of_pos hcomment]

end Trivia.Documents

theorem replaceDocumentation_twice (leading : List Trivia) {first : Trivia}
    (h : first.isDocumentation = true) (second : Trivia) :
    replaceDocumentation (replaceDocumentation leading first) second =
      replaceDocumentation leading second := by
  rw [replaceDocumentation, (documents_replaceDocumentation leading first).filter_eq h]
  rfl

/-- A token with new documentation in front of it. -/
def Token.document (comment : Trivia) (token : Token) : Token :=
  token.withLeading (replaceDocumentation token.leading comment)

theorem Token.document_document (token : Token) {first : Trivia}
    (h : first.isDocumentation = true) (second : Trivia) :
    (token.document first).document second = token.document second := by
  rw [Token.document, Token.document, Token.document, Token.leading_withLeading,
    replaceDocumentation_twice token.leading h]
  rfl

theorem documentationAttacher_eq (comment : Trivia) :
    documentationAttacher comment = Traversal.onFirstToken (Token.document comment) := rfl

/-! ### Trees -/

theorem Documentation.isDocumentation_toTrivia (documentation : Documentation) :
    documentation.toTrivia.isDocumentation = true := rfl

namespace Node

/-- What attaching documentation makes of a tree whose first token is `token`. -/
structure Documented (documentation : Documentation) (tree : Node) (token : Token)
    (result : Node) : Prop where
  /-- The token has the comment in front of it and is otherwise the same. -/
  first : ∃ leading, Trivia.Documents documentation.toTrivia token.leading leading ∧
    result.firstToken? = some (token.withLeading leading)
  /-- The other tokens are those of the tree. -/
  others : result.tokens.tail = tree.tokens.tail
  /-- The tree in the comment can be read back. -/
  inner : ∃ comment, documentation.toTrivia.inner = some comment ∧
    result.documentation? = some comment
  /-- All that comes behind the token are the same objects, and all in front of it but the
  nodes that it lies below. -/
  beside : tree.hasLabels = true → ∃ above above' below new,
    tree.outline = above.map .node ++ .token token :: below ∧
    result.outline = above'.map .node ++ .token new :: below ∧
    result.firstToken? = some new ∧ List.Forall₂ Node.OnWay above above'

theorem firstToken?_settleFirst {f : Token → Token} {tree result : Node} {token : Token}
    (h : result.tokens = settleFirst f false tree.tokens) (htoken : tree.firstToken? = some token) :
    result.firstToken? = some (f token) ∧ result.tokens.tail = tree.tokens.tail := by
  rw [Node.firstToken?_eq] at htoken
  obtain ⟨rest, hrest⟩ := List.head?_eq_some_iff.mp htoken
  rw [Node.firstToken?_eq, h, hrest]
  exact ⟨rfl, rfl⟩

theorem documented_of_firstChanged {documentation : Documentation} {tree result : Node}
    {token : Token} {met : Bool} (htrim : tree.isTrim false = true)
    (h : Part.FirstChanged (Token.document documentation.toTrivia) .node tree false result met)
    (htoken : tree.firstToken? = some token) : Documented documentation tree token result := by
  obtain ⟨hfirst, hothers⟩ := firstToken?_settleFirst h.tokens htoken
  have hdocuments := documents_replaceDocumentation token.leading documentation.toTrivia
  refine ⟨⟨_, hdocuments, hfirst⟩, hothers, ⟨_, rfl, ?_⟩, fun hlabels => ?_⟩
  · have hfind := hdocuments.find?_eq documentation.isDocumentation_toTrivia
    rw [Node.documentation?, hfirst]
    exact congrArg (Option.bind · Trivia.inner) hfind
  · have hhead : (tree.outline.filterMap Element.token?).head? = some token := by
      rw [← htoken, Node.firstToken?_eq]
      exact congrArg List.head? (Request.tokens_eq_filterMap (.node tree)).symm
    obtain ⟨above, above', below, htree, hresult, hway⟩ :=
      (h.outline ⟨hlabels, htrim⟩).exists_first hhead
    exact ⟨above, above', below, _, htree, hresult, hfirst, hway⟩

/-- The run that attaches documentation. -/
theorem attachDocumentation_eq (tree : Node) (documentation : Documentation) :
    ∃ result met, Part.FirstChanged (Token.document documentation.toTrivia) .node tree false result
      met ∧ tree.attachDocumentation documentation = .done result met := by
  have hlabel (token : Token) : (token.document documentation.toTrivia).label = none := rfl
  obtain ⟨result, met, hchanged, hdone⟩ := Traversal.transform_onFirstToken hlabel tree
  rw [Node.attachDocumentation, documentationAttacher_eq]
  exact ⟨result, met, hchanged, hdone tree.fuel (Nat.le_refl _)⟩

/-- Two results of one tree with the same tokens. -/
theorem equal_of_firstChanged {f g : Token → Token} {tree first second again : Node}
    {met met' met'' : Bool} (htrim : tree.isTrim false = true)
    (hfirst : Part.FirstChanged f .node tree false first met)
    (hsecond : Part.FirstChanged g .node tree false second met')
    (hagain : Part.FirstChanged g .node first false again met'')
    (hover : ∀ token, g (f token) = g token) : again.equal second = true := by
  have hshape : again.mapTokens (fun _ => .blank) = second.mapTokens (fun _ => .blank) :=
    ((hagain.shape hfirst.trim).trans (hfirst.shape htrim)).trans (hsecond.shape htrim).symm
  have htokens : again.tokens = second.tokens := by
    have hstep : first.tokens = settleFirst f false tree.tokens := hfirst.tokens
    have hlast : again.tokens = settleFirst g false first.tokens := hagain.tokens
    have honce : second.tokens = settleFirst g false tree.tokens := hsecond.tokens
    rw [hlast, hstep, honce]
    cases tree.tokens with
    | nil => rfl
    | cons token rest => exact congrArg (· :: rest) (hover token)
  exact Node.equal_of_shape hagain.trim hsecond.trim hshape (congrArg _ htokens)

/-- Attaching documentation to a tree without surplus separators succeeds. The first token has
the comment in front of it instead of the documentation that was there, and nothing else changes;
without tokens the tree stays. Attaching a second time leaves nothing of the first. -/
theorem attachDocumentation_documented {tree : Node} (htrim : tree.isTrim false = true)
    (documentation : Documentation) :
    ∃ result met, tree.attachDocumentation documentation = .done result met ∧
      (∀ token, tree.firstToken? = some token → Documented documentation tree token result) ∧
      (tree.firstToken? = none → tree.hasLabels = true → result = tree) ∧
      ∀ second, ∃ once again met' met'', tree.attachDocumentation second = .done once met' ∧
        result.attachDocumentation second = .done again met'' ∧ again.equal once = true := by
  obtain ⟨result, met, hchanged, hdone⟩ := tree.attachDocumentation_eq documentation
  refine ⟨result, met, hdone, fun token htoken => documented_of_firstChanged htrim hchanged htoken,
    fun hnone hlabels => ?_, fun second => ?_⟩
  · rw [Node.firstToken?_eq, List.head?_eq_none_iff] at hnone
    refine hchanged.kept ⟨hlabels, htrim⟩ (hchanged.met.trans ?_)
    rw [Request.tokens, hnone]
    rfl
  · obtain ⟨once, met', honce, hdone'⟩ := tree.attachDocumentation_eq second
    obtain ⟨again, met'', hagain, hdone''⟩ := result.attachDocumentation_eq second
    refine ⟨once, again, met', met'', hdone', hdone'', ?_⟩
    exact equal_of_firstChanged htrim hchanged honce hagain fun token =>
      token.document_document documentation.isDocumentation_toTrivia second.toTrivia

/-- A name with a comment of its own and outdated documentation, behind a node without tokens;
all of them objects. -/
def outdatedName : Node :=
  ((Node.compilationUnit []
    [.xmlText [], .identifierName ((Token.ofText .identifier "x").withLeading
      [Build.summaryComment "old", Build.singleLineComment "x", Build.endOfLine "\n",
        Build.whitespace "  "])] Build.endOfFile).labelFrom 0).1

/-- The comment goes between the line end and the indentation of the name. -/
theorem attachDocumentation_outdatedName :
    outdatedName.isTrim false = true ∧ outdatedName.hasLabels = true ∧
    (outdatedName.attachDocumentation ⟨"S", [], none⟩).value?.map Node.text =
      some "// x\n/// <summary>\n/// S\n/// </summary>\n  x" ∧
    ∃ token, outdatedName.firstToken? = some token ∧
      ∃ result met, outdatedName.attachDocumentation ⟨"S", [], none⟩ = .done result met ∧
        Documented ⟨"S", [], none⟩ outdatedName token result := by
  have htrim : outdatedName.isTrim false = true := by decide
  have hsome : outdatedName.firstToken?.isSome = true := by decide
  obtain ⟨token, htoken⟩ := Option.isSome_iff_exists.mp hsome
  obtain ⟨result, met, hdone, hdocumented, -⟩ :=
    attachDocumentation_documented htrim ⟨"S", [], none⟩
  exact ⟨htrim, by decide, by decide, token, htoken, result, met, hdone, hdocumented token htoken⟩

end Node

end SourceTree
