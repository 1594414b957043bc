import SourceTree.Proofs.Documentation.Attach
import SourceTree.Proofs.Documentation.Rows

/-!
Reading a summary back. A summary is written line by line, and reading it joins the lines with
line feeds. So the text that comes back has no carriage return in front of a line feed and no
line feed at its end, and it is the text that was written exactly if that had neither.
-/
namespace SourceTree

/-! ### Lines -/

namespace Text

/-- A text cut into lines. Each of them ends in a line feed, which may have a carriage return in
front of it; the last one may end with the text, unless it is empty. -/
inductive Cut : List Char → List (List Char) → Prop where
  | nil : Cut [] []
  | last {line : List Char} (h : '\n' ∉ line) (nonempty : line ≠ []) : Cut line [line]
  | feed {line rest : List Char} {lines : List (List Char)} (h : '\n' ∉ line)
      (noReturn : line.getLast? ≠ some '\r') (more : Cut rest lines) :
      Cut (line ++ '\n' :: rest) (line :: lines)
  | returnFeed {line rest : List Char} {lines : List (List Char)} (h : '\n' ∉ line)
      (more : Cut rest lines) : Cut (line ++ '\r' :: '\n' :: rest) (line :: lines)

theorem dropReturn_append_return (line : List Char) : dropReturn (line ++ ['\r']) = line := by
  induction line with
  | nil => rfl
  | cons c line ih => rw [List.cons_append, dropReturn, ih]; simp

theorem dropReturn_eq_self {line : List Char} (h : line.getLast? ≠ some '\r') :
    dropReturn line = line := by
  rcases eq_of_dropReturn line with heq | heq
  · exact heq.symm
  · rw [heq, List.getLast?_concat] at h
    exact absurd rfl h

theorem cut_closeLines (cs : List Char) : Cut cs (closeLines (splitChars '\n' cs)) := by
  obtain ⟨length, hlength⟩ : ∃ length, cs.length = length := ⟨_, rfl⟩
  induction length using Nat.strongRecOn generalizing cs with
  | ind length ih =>
    by_cases hmem : '\n' ∈ cs
    · -- the first line ends at the first line feed
      obtain ⟨line, rest, rfl, hline⟩ := List.eq_append_cons_of_mem hmem
      have hrest : Cut rest (closeLines (splitChars '\n' rest)) :=
        ih rest.length (by simp at hlength; omega) rest rfl
      rw [splitChars_append_cons, splitChars_of_not_mem hline,
        closeLines_append _ (splitChars_ne_nil '\n' rest), List.map_singleton,
        List.singleton_append]
      by_cases hreturn : line.getLast? = some '\r'
      · obtain ⟨front, rfl⟩ := List.getLast?_eq_some_iff.mp hreturn
        rw [dropReturn_append_return, List.append_assoc]
        exact .returnFeed (fun h => hline (List.mem_append_left _ h)) hrest
      · rw [dropReturn_eq_self hreturn]
        exact .feed hline hreturn hrest
    · rw [splitChars_of_not_mem hmem, closeLines]
      cases cs with
      | nil => exact .nil
      | cons c cs => exact .last hmem (List.cons_ne_nil c cs)

/-! ### Lines joined again -/

/-- A carriage return with a line feed behind it. -/
def HasReturnFeed (cs : List Char) : Prop := ['\r', '\n'] <:+: cs

instance (cs : List Char) : Decidable (HasReturnFeed cs) :=
  inferInstanceAs (Decidable (['\r', '\n'] <:+: cs))

theorem hasReturnFeed_append_feed {line : List Char} (h : '\n' ∉ line)
    (noReturn : line.getLast? ≠ some '\r') (rest : List Char) :
    HasReturnFeed (line ++ '\n' :: rest) ↔ HasReturnFeed rest := by
  rw [HasReturnFeed, HasReturnFeed]
  induction line with
  | nil => simp [List.infix_cons_iff]
  | cons c line ih =>
    have hline : '\n' ∉ line := fun hmem => h (List.mem_cons_of_mem c hmem)
    cases line with
    | nil =>
      have hc : '\r' ≠ c := fun heq => noReturn (by rw [heq]; rfl)
      simp [List.infix_cons_iff, hc]
    | cons d line =>
      have hd : '\n' ≠ d := fun heq => hline (heq ▸ List.mem_cons_self)
      rw [List.getLast?_cons_cons] at noReturn
      rw [List.cons_append, List.infix_cons_iff, ih hline noReturn]
      simp [hd]

namespace Cut

theorem length_intercalate_le {cs : List Char} {lines : List (List Char)} (h : Cut cs lines) :
    (['\n'].intercalate lines).length ≤ cs.length := by
  induction h with
  | nil => simp
  | last => simp
  | @feed line rest lines _ _ _ ih =>
    cases lines with
    | nil => simp
    | cons next lines => simp [List.intercalate_cons_cons]; omega
  | @returnFeed line rest lines _ _ ih =>
    cases lines with
    | nil => simp
    | cons next lines => simp [List.intercalate_cons_cons]; omega

theorem eq_nil_iff {cs : List Char} {lines : List (List Char)} (h : Cut cs lines) :
    cs = [] ↔ lines = [] := by
  cases h with
  | nil => simp
  | last _ nonempty => simp [nonempty]
  | feed | returnFeed => simp

/-- Nothing is lost but a carriage return in front of a line feed, and the line feed at the
end. -/
theorem intercalate_eq_iff {cs : List Char} {lines : List (List Char)} (h : Cut cs lines) :
    ['\n'].intercalate lines = cs ↔ ¬ HasReturnFeed cs ∧ cs.getLast? ≠ some '\n' := by
  induction h with
  | nil => simp [HasReturnFeed]
  | @last line hline _ =>
    have hreturn : ¬ HasReturnFeed line := fun hinside => hline (hinside.subset (by simp))
    have hlast : line.getLast? ≠ some '\n' := fun heq => hline (List.mem_of_getLast? heq)
    simp [hreturn, hlast]
  | @feed line rest lines hline noReturn more ih =>
    rw [hasReturnFeed_append_feed hline noReturn]
    cases lines with
    | nil =>
      obtain rfl := more.eq_nil_iff.mpr rfl
      simp
    | cons next lines =>
      have hrest : rest ≠ [] := fun heq => List.cons_ne_nil _ _ (more.eq_nil_iff.mp heq)
      have hlast : (line ++ '\n' :: rest).getLast? = rest.getLast? := by
        obtain ⟨c, rest, rfl⟩ := List.exists_cons_of_ne_nil hrest
        simp [List.getLast?_append, List.getLast?_cons]
      rw [hlast, ← ih, List.intercalate_cons_cons]
      simp
  | @returnFeed line rest lines _ more _ =>
    have hreturn : HasReturnFeed (line ++ '\r' :: '\n' :: rest) := ⟨line, rest, by simp⟩
    have hlength := more.length_intercalate_le
    refine ⟨fun heq => ?_, fun h => absurd hreturn h.1⟩
    have := congrArg List.length heq
    cases lines with
    | nil => simp at this
    | cons next lines => simp [List.intercalate_cons_cons] at this; omega

end Cut

theorem cut_lines (text : String) : Cut text.toList ((lines text).map String.toList) := by
  have hcut := cut_closeLines text.toList
  rwa [lines, List.map_map, show String.toList ∘ String.ofList = id from
    funext fun _ => String.toList_ofList, List.map_id]

theorem intercalate_lines_eq_iff (text : String) :
    String.intercalate "\n" (lines text) = text ↔
      ¬ HasReturnFeed text.toList ∧ text.toList.getLast? ≠ some '\n' := by
  rw [← (cut_lines text).intercalate_eq_iff, ← String.toList_inj, String.toList_intercalate]
  rfl

end Text

/-! ### Reading -/

namespace Build

theorem content_xmlBlockElement (name text : String) :
    (xmlBlockElement name text).content =
      [.xmlText (xmlNewLine :: (Text.lines text).flatMap fun line =>
        [xmlTextLine line, xmlNewLine])] := rfl

@[simp] theorem tokens_xmlText (tokens : List Token) : (Node.xmlText tokens).tokens = tokens := by
  simp [Node.tokens, Slots.tokens, Slot.tokensIn]

/-- The text tokens of a block are the lines of its text. -/
theorem texts_xmlBlockElement (name text : String) :
    ((((xmlBlockElement name text).content.flatMap Node.tokens).filter fun token =>
      token.kind == .xmlText).map Token.text) = Text.lines text := by
  have hbreak : (xmlNewLine.kind == .xmlText) = false := rfl
  have hline : ∀ line, ((xmlTextLine line).kind == .xmlText) = true := fun _ => rfl
  have htext : ∀ line, (xmlTextLine line).text = line := fun _ => rfl
  rw [content_xmlBlockElement, List.flatMap_singleton, tokens_xmlText,
    List.filter_cons_of_neg (by simp [hbreak])]
  induction Text.lines text with
  | nil => rfl
  | cons line lines ih => simp [hbreak, hline, htext, ih]

theorem isElement_xmlBlockElement (name text : String) :
    (xmlBlockElement name text).isElement name = true := by
  change (name == name) = true
  exact beq_iff_eq.mpr rfl

/-- The text tokens in the first element of a comment, one on each line. -/
theorem summaryText?_documentationComment {first : Node} (h : first.isElement "summary" = true)
    (others : List Node) :
    ∃ comment, (documentationComment (first :: others)).inner = some comment ∧
      comment.summaryText? = some (String.intercalate "\n"
        (((first.content.flatMap Node.tokens).filter fun token => token.kind == .xmlText).map
          Token.text)) := by
  refine ⟨_, rfl, ?_⟩
  have hfind : (((first :: others).flatMap fun element => [element, .xmlText [xmlNewLine]]).find?
      (·.isElement "summary")) = some first := by
    rw [List.flatMap_cons, List.cons_append]
    exact List.find?_cons_of_pos h
  exact (if_pos rfl).trans (congrArg (Option.map _) hfind)

end Build

/-- What comes back of a summary, whatever else the comment says. -/
theorem Documentation.summaryText?_toTrivia (documentation : Documentation) :
    ∃ comment, documentation.toTrivia.inner = some comment ∧
      comment.summaryText? =
        some (String.intercalate "\n" (Text.lines documentation.summary)) := by
  rw [← Build.texts_xmlBlockElement "summary"]
  exact Build.summaryText?_documentationComment (Build.isElement_xmlBlockElement _ _) _

/-- Documentation in front of a tree with a token can be read back, and its summary is the lines
of the one that was written, joined by line feeds. It is that summary exactly if there was no
carriage return in front of a line feed and no line feed at the end. -/
theorem Node.summaryText?_attachDocumentation (documentation : Documentation) {tree : Node}
    {token : Token} (htoken : tree.firstToken? = some token) :
    ∃ result met comment, tree.attachDocumentation documentation = .done result met ∧
      result.documentation? = some comment ∧
      Text.Cut documentation.summary.toList
        ((Text.lines documentation.summary).map String.toList) ∧
      comment.summaryText? =
        some (String.intercalate "\n" (Text.lines documentation.summary)) ∧
      (comment.summaryText? = some documentation.summary ↔
        ¬ Text.HasReturnFeed documentation.summary.toList ∧
          documentation.summary.toList.getLast? ≠ some '\n') := by
  obtain ⟨result, met, hchanged, hdone⟩ := tree.attachDocumentation_eq documentation
  obtain ⟨comment, hinner, hsummary⟩ := documentation.summaryText?_toTrivia
  obtain ⟨hfirst, -⟩ := firstToken?_settleFirst hchanged.tokens htoken
  have hfind := (documents_replaceDocumentation token.leading documentation.toTrivia).find?_eq
    documentation.isDocumentation_toTrivia
  have hread : result.documentation? = some comment := by
    rw [Node.documentation?, hfirst, ← hinner]
    exact congrArg (Option.bind · Trivia.inner) hfind
  refine ⟨result, met, comment, hdone, hread, Text.cut_lines _, hsummary, ?_⟩
  rw [hsummary, Option.some.injEq, Text.intercalate_lines_eq_iff]

/-- A summary with an empty line and a carriage return at the end, and a parameter that looks
like a summary. -/
def twoParagraphs : Documentation := ⟨"A\n\nB\r", [("summary", "<summary>C</summary>")], some "D"⟩

theorem Node.summaryText?_twoParagraphs :
    ∃ result met comment, outdatedName.attachDocumentation twoParagraphs = .done result met ∧
      result.documentation? = some comment ∧ comment.summaryText? = some "A\n\nB\r" := by
  have hsome : outdatedName.firstToken?.isSome = true := by decide
  obtain ⟨token, htoken⟩ := Option.isSome_iff_exists.mp hsome
  obtain ⟨result, met, comment, hdone, hread, -, -, hsummary⟩ :=
    Node.summaryText?_attachDocumentation twoParagraphs htoken
  exact ⟨result, met, comment, hdone, hread, hsummary.mpr ⟨by decide, by decide⟩⟩

end SourceTree
