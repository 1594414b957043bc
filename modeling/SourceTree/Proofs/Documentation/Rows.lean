import SourceTree.Documentation
import SourceTree.Proofs.View

/-!
The text of a documentation comment, row by row. Every row starts with `///`. The summary has
a row for each of its lines, but a parameter or the result has one row whatever its text is: a
line feed in there starts a line that `///` does not open, unless it stands in the text itself.
So all lines are lines of a comment exactly if each line feed in those texts is followed by
`///`.
-/
namespace SourceTree

/-! ### Marked lines -/

namespace Text

/-- What opens a line of a documentation comment. -/
def marker : List Char := ['/', '/', '/']

def isMarked (line : List Char) : Bool := marker.isPrefixOf line

/-- Every line of a text is opened by `///`. -/
def isComment (text : String) : Bool := (lines text).all fun line => isMarked line.toList

/-- Every line of a text but the first is opened by `///`, so that the text can go on in a
comment. -/
def staysComment (text : String) : Bool :=
  (split '\n' text).tail.all fun line => isMarked line.toList

/-- Each line feed is followed by `///`. -/
def breaksMarked : List Char → Bool
  | [] => true
  | c :: rest => (c != '\n' || isMarked rest) && breaksMarked rest

/-- A row all of whose lines are opened by `///`. -/
def isRow (row : String) : Bool := isMarked row.toList && breaksMarked row.toList

theorem splitChars_cons_of_ne {separator c : Char} (h : c ≠ separator) (cs : List Char) :
    ∃ piece pieces, splitChars separator cs = piece :: pieces ∧
      splitChars separator (c :: cs) = (c :: piece) :: pieces := by
  rw [splitChars, if_neg h]
  cases hcs : splitChars separator cs with
  | nil => exact absurd hcs (splitChars_ne_nil separator cs)
  | cons piece pieces => exact ⟨piece, pieces, rfl, rfl⟩

theorem splitChars_append_cons (separator : Char) (front back : List Char) :
    splitChars separator (front ++ separator :: back) =
      splitChars separator front ++ splitChars separator back := by
  induction front with
  | nil => simp [splitChars]
  | cons c front ih =>
    by_cases h : c = separator
    · rw [List.cons_append, splitChars, splitChars, if_pos h, if_pos h, ih, List.cons_append]
    · obtain ⟨piece, pieces, hfront, hcons⟩ := splitChars_cons_of_ne h front
      rw [hfront] at ih
      rw [List.cons_append, splitChars, if_neg h, ih, hcons]
      rfl

theorem not_mem_of_mem_splitChars {separator : Char} {cs piece : List Char}
    (h : piece ∈ splitChars separator cs) : separator ∉ piece := by
  induction cs generalizing piece with
  | nil =>
    obtain rfl := List.mem_singleton.mp h
    exact List.not_mem_nil
  | cons c cs ih =>
    by_cases hc : c = separator
    · rw [splitChars, if_pos hc] at h
      rcases List.mem_cons.mp h with rfl | h
      · exact List.not_mem_nil
      · exact ih h
    · obtain ⟨first, rest, hcs, hcons⟩ := splitChars_cons_of_ne hc cs
      rw [hcs] at ih
      rw [hcons] at h
      rcases List.mem_cons.mp h with rfl | h
      · exact fun hmem => (List.mem_cons.mp hmem).elim (Ne.symm hc) (ih List.mem_cons_self)
      · exact ih (List.mem_cons_of_mem _ h)

/-- Whether a word opens a text does not depend on what follows a character that it lacks. -/
theorem isPrefixOf_append_cons {word : List Char} {c : Char} (h : c ∉ word)
    (front back : List Char) : word.isPrefixOf (front ++ c :: back) = word.isPrefixOf front := by
  induction word generalizing front with
  | nil => rfl
  | cons w word ih =>
    cases front with
    | nil =>
      have hne : (w == c) = false :=
        beq_eq_false_iff_ne.mpr fun heq => h (heq ▸ List.mem_cons_self)
      simp [List.isPrefixOf, hne]
    | cons d front =>
      rw [List.cons_append, List.isPrefixOf, List.isPrefixOf,
        ih (fun hmem => h (List.mem_cons_of_mem _ hmem))]

/-- The first piece of a text is all of it, or ends at a separator. -/
theorem eq_of_splitChars {separator : Char} {cs piece : List Char} {pieces : List (List Char)}
    (h : splitChars separator cs = piece :: pieces) :
    cs = piece ∨ ∃ rest, cs = piece ++ separator :: rest := by
  induction cs generalizing piece pieces with
  | nil =>
    obtain ⟨rfl, rfl⟩ := List.cons.inj h
    exact .inl rfl
  | cons c cs ih =>
    by_cases hc : c = separator
    · subst hc
      rw [splitChars, if_pos rfl] at h
      obtain ⟨rfl, rfl⟩ := List.cons.inj h
      exact .inr ⟨cs, rfl⟩
    · obtain ⟨first, others, hcs, hcons⟩ := splitChars_cons_of_ne hc cs
      rw [hcons] at h
      obtain ⟨rfl, rfl⟩ := List.cons.inj h
      rcases ih hcs with rfl | ⟨rest, rfl⟩
      · exact .inl rfl
      · exact .inr ⟨rest, rfl⟩

theorem isMarked_of_splitChars {cs piece : List Char} {pieces : List (List Char)}
    (h : splitChars '\n' cs = piece :: pieces) : isMarked piece = isMarked cs := by
  rcases eq_of_splitChars h with rfl | ⟨rest, rfl⟩
  · rfl
  · exact (isPrefixOf_append_cons (by decide) piece rest).symm

theorem tail_splitChars_all (cs : List Char) :
    (splitChars '\n' cs).tail.all isMarked = breaksMarked cs := by
  induction cs with
  | nil => rfl
  | cons c cs ih =>
    by_cases hc : c = '\n'
    · subst hc
      obtain ⟨piece, pieces, hcs⟩ := List.exists_cons_of_ne_nil (splitChars_ne_nil '\n' cs)
      have hfirst : isMarked piece = isMarked cs := isMarked_of_splitChars hcs
      rw [hcs, List.tail_cons] at ih
      rw [splitChars, if_pos rfl, List.tail_cons, hcs, List.all_cons, hfirst, ih, breaksMarked]
      rfl
    · obtain ⟨piece, pieces, hcs, hcons⟩ := splitChars_cons_of_ne hc cs
      have hother : (c != '\n') = true := bne_iff_ne.mpr hc
      rw [hcs, List.tail_cons] at ih
      rw [hcons, List.tail_cons, ih, breaksMarked, hother, Bool.true_or, Bool.true_and]

theorem splitChars_all (cs : List Char) :
    (splitChars '\n' cs).all isMarked = (isMarked cs && breaksMarked cs) := by
  obtain ⟨piece, pieces, hcs⟩ := List.exists_cons_of_ne_nil (splitChars_ne_nil '\n' cs)
  have hfirst : isMarked piece = isMarked cs := isMarked_of_splitChars hcs
  have hrest := tail_splitChars_all cs
  rw [hcs, List.tail_cons] at hrest
  rw [hcs, List.all_cons, hfirst, hrest]

theorem staysComment_eq (text : String) : staysComment text = breaksMarked text.toList := by
  rw [← tail_splitChars_all, staysComment, split, ← List.map_tail, List.all_map]
  congr 1
  funext line
  exact congrArg isMarked String.toList_ofList

/-! ### Rows -/

theorem eq_of_dropReturn (line : List Char) :
    line = dropReturn line ∨ line = dropReturn line ++ ['\r'] := by
  fun_induction dropReturn line with
  | case1 => exact .inl rfl
  | case2 => exact .inr rfl
  | case3 c rest _ ih => exact ih.imp (congrArg (c :: ·)) (congrArg (c :: ·))

theorem isMarked_dropReturn (line : List Char) : isMarked (dropReturn line) = isMarked line := by
  rcases eq_of_dropReturn line with h | h
  · rw [← h]
  · have hopen : isMarked (dropReturn line ++ ['\r']) = isMarked (dropReturn line) :=
      isPrefixOf_append_cons (by decide) _ []
    rw [← hopen, ← h]

theorem dropReturn_subset (line : List Char) : dropReturn line ⊆ line := by
  intro c hc
  rcases eq_of_dropReturn line with h | h
  · rwa [← h] at hc
  · rw [h]
    exact List.mem_append_left _ hc

theorem closeLines_append (front : List (List Char)) {back : List (List Char)} (h : back ≠ []) :
    closeLines (front ++ back) = front.map dropReturn ++ closeLines back := by
  induction front with
  | nil => rfl
  | cons line front ih =>
    obtain ⟨next, rest, hnext⟩ : ∃ next rest, front ++ back = next :: rest :=
      List.exists_cons_of_ne_nil (by simp [h])
    rw [List.cons_append, hnext, closeLines, ← hnext, ih, List.map_cons, List.cons_append]

/-- The lines of rows are the lines of each. -/
theorem closeLines_rows (rows : List (List Char)) :
    closeLines (splitChars '\n' (rows.flatMap (· ++ ['\n']))) =
      rows.flatMap fun row => (splitChars '\n' row).map dropReturn := by
  induction rows with
  | nil => rfl
  | cons row rows ih =>
    rw [List.flatMap_cons, List.append_assoc, List.singleton_append, splitChars_append_cons,
      closeLines_append _ (splitChars_ne_nil _ _), ih, List.flatMap_cons]

theorem isComment_rows (rows : List String) :
    isComment (String.join (rows.map (· ++ "\n"))) = rows.all isRow := by
  have htext : (String.join (rows.map (· ++ "\n"))).toList =
      (rows.map String.toList).flatMap (· ++ ['\n']) := by
    rw [String.toList_join, List.flatMap_map, List.flatMap_map]
    simp only [String.toList_append]
    rfl
  simp only [isComment, lines, htext, closeLines_rows, List.all_map, List.all_flatMap,
    Function.comp_def, String.toList_ofList, isMarked_dropReturn, splitChars_all]
  rfl

theorem not_mem_of_mem_closeLines {pieces : List (List Char)} (h : ∀ piece ∈ pieces, '\n' ∉ piece)
    {line : List Char} (hline : line ∈ closeLines pieces) : '\n' ∉ line := by
  fun_induction closeLines pieces with
  | case1 => exact absurd hline List.not_mem_nil
  | case2 last => exact absurd hline List.not_mem_nil
  | case3 last => exact h line hline
  | case4 piece next rest ih =>
    rcases List.mem_cons.mp hline with rfl | hline
    · exact fun hmem => h piece List.mem_cons_self (dropReturn_subset piece hmem)
    · exact ih (fun p hp => h p (List.mem_cons_of_mem _ hp)) hline

theorem not_mem_of_mem_lines {text line : String} (h : line ∈ lines text) : '\n' ∉ line.toList := by
  obtain ⟨chars, hchars, rfl⟩ := List.mem_map.mp h
  rw [String.toList_ofList]
  exact not_mem_of_mem_closeLines (fun _ => not_mem_of_mem_splitChars) hchars

/-! ### Texts inside a row -/

theorem breaksMarked_append_of_not_mem {front : List Char} (h : '\n' ∉ front) (back : List Char) :
    breaksMarked (front ++ back) = breaksMarked back := by
  induction front with
  | nil => rfl
  | cons c front ih =>
    have hc : (c != '\n') = true := bne_iff_ne.mpr fun heq => h (heq ▸ List.mem_cons_self)
    rw [List.cons_append, breaksMarked, hc, Bool.true_or, Bool.true_and,
      ih fun hmem => h (List.mem_cons_of_mem _ hmem)]

theorem breaksMarked_of_not_mem {cs : List Char} (h : '\n' ∉ cs) : breaksMarked cs = true := by
  simpa [breaksMarked] using breaksMarked_append_of_not_mem h []

theorem breaksMarked_append_cons {c : Char} (h : c ∉ marker) (front back : List Char) :
    breaksMarked (front ++ c :: back) = (breaksMarked front && breaksMarked (c :: back)) := by
  induction front with
  | nil => rfl
  | cons d front ih =>
    rw [List.cons_append, breaksMarked, breaksMarked, ih, isMarked, isPrefixOf_append_cons h,
      isMarked, Bool.and_assoc]

end Text

/-! ### The text of a comment -/

@[simp] theorem Token.fullText_ofText (kind : TokenKind) (text : String) :
    (ofText kind text).fullText = text := by
  simp [ofText, Token.fullText, triviaTexts]

@[simp] theorem Token.fullText_withLeading_ofText (kind : TokenKind) (text space : String)
    (blank : TriviaKind) :
    ((ofText kind text).withLeading [Trivia.ofText blank space]).fullText = space ++ text := by
  simp [ofText, withLeading, Trivia.ofText, Token.fullText, triviaTexts, Trivia.fullText,
    Token.kind, Token.text, Token.trailing]

theorem join_flatMap {α : Type} (texts : α → List String) (xs : List α) :
    String.join (xs.flatMap texts) = String.join (xs.map fun x => String.join (texts x)) := by
  induction xs with
  | nil => rfl
  | cons x xs ih => rw [List.flatMap_cons, String.join_append, ih, List.map_cons, String.join_cons]

namespace Build

/-- What a start tag says behind its name. -/
def attributeText : Option (String × String) → String
  | none => ""
  | some (key, value) => " " ++ (key ++ "=\"" ++ value ++ "\"")

def lineRow (line : String) : String := (if line.isEmpty then "///" else "/// ") ++ line

def blockRows (name text : String) : List String :=
  ("/// <" ++ name ++ ">") :: (Text.lines text).map lineRow ++ ["/// </" ++ name ++ ">"]

def inlineRow (name : String) (entry : Option (String × String)) (text : String) : String :=
  "/// <" ++ name ++ attributeText entry ++ ">" ++ text ++ "</" ++ name ++ ">"

@[simp] theorem fullText_xmlNewLine : xmlNewLine.fullText = "\n" :=
  Token.fullText_ofText .xmlNewLine "\n"

theorem text_xmlTextLines (lines : List String) :
    String.join ((lines.flatMap fun line => [xmlTextLine line, xmlNewLine]).map Token.fullText) =
      String.join (lines.map fun line => lineRow line ++ "\n") := by
  rw [List.map_flatMap, join_flatMap]
  simp [xmlTextLine, exterior, lineRow]

theorem text_xmlBlockElement (name text : String) :
    (xmlBlockElement name text).text ++ "\n" =
      String.join ((blockRows name text).map (· ++ "\n")) := by
  simp only [xmlBlockElement, startTag, endTag, Node.text, Slots.text, Slot.text, nodeTexts,
    tokenTexts_eq_map, List.map_cons, String.join_cons, text_xmlTextLines, blockRows]
  simp [← String.toList_inj, punctuation, exterior, Function.comp_def]

theorem text_xmlInlineElement (name : String) (entry : Option (String × String)) (text : String) :
    (xmlInlineElement name entry text).text = inlineRow name entry text := by
  cases entry with
  | none =>
    simp [xmlInlineElement, startTag, endTag, inlineRow, attributeText, Node.text, Slots.text,
      Slot.text, nodeTexts, tokenTexts, punctuation, exterior, String.append_assoc]
  | some entry =>
    simp [xmlInlineElement, startTag, endTag, inlineRow, attributeText, Node.text, Slots.text,
      Slot.text, nodeTexts, tokenTexts, punctuation, exterior, whitespace, String.append_assoc]

theorem text_documentationComment (elements : List Node) :
    ∃ tree, (documentationComment elements).inner = some tree ∧
      tree.text = String.join (elements.map fun element => element.text ++ "\n") := by
  refine ⟨_, rfl, ?_⟩
  simp only [Node.text, Slots.text, Slot.text, nodeTexts_eq_map, List.map_flatMap, join_flatMap]
  simp [Node.text, Slots.text, Slot.text, tokenTexts]

end Build

/-! ### Comments throughout -/

namespace Text

/-- Behind an opening without line feeds it depends on the rest of a row. -/
theorem isRow_append {start : String} (h : isMarked start.toList = true)
    (hline : '\n' ∉ start.toList) (rest : String) : isRow (start ++ rest) = staysComment rest := by
  have hmarked : isMarked (start.toList ++ rest.toList) = true := by
    rw [isMarked, List.isPrefixOf_iff_prefix] at h ⊢
    exact h.trans (List.prefix_append _ _)
  rw [isRow, String.toList_append, hmarked, Bool.true_and, breaksMarked_append_of_not_mem hline,
    staysComment_eq]

/-- What stands behind a text cannot open its lines if it starts with another character. -/
theorem staysComment_append (front : String) {back : String} {c : Char} {cs : List Char}
    (h : back.toList = c :: cs) (hc : c ∉ marker) :
    staysComment (front ++ back) = (staysComment front && staysComment back) := by
  rw [staysComment_eq, staysComment_eq, staysComment_eq, String.toList_append, h,
    breaksMarked_append_cons hc]

theorem staysComment_append_of_not_mem {front : String} (h : '\n' ∉ front.toList) (back : String) :
    staysComment (front ++ back) = staysComment back := by
  rw [staysComment_eq, staysComment_eq, String.toList_append, breaksMarked_append_of_not_mem h]

end Text

namespace Build

open Text

theorem isRow_lineRow {line : String} (h : '\n' ∉ line.toList) : isRow (lineRow line) = true := by
  have hline : staysComment line = true := by rw [staysComment_eq, breaksMarked_of_not_mem h]
  rw [lineRow]
  split
  · rw [isRow_append (by decide) (by decide), hline]
  · rw [isRow_append (by decide) (by decide), hline]

theorem all_blockRows (text : String) : (blockRows "summary" text).all isRow = true := by
  have hlines : ((lines text).map lineRow).all isRow = true := by
    rw [List.all_map, List.all_eq_true]
    exact fun line hline => isRow_lineRow (not_mem_of_mem_lines hline)
  rw [blockRows, List.cons_append, List.all_cons, List.all_append, hlines]
  decide

theorem isRow_inlineRow_param (name text : String) :
    isRow (inlineRow "param" (some ("name", name)) text) =
      (staysComment name && staysComment text) := by
  have hrow : inlineRow "param" (some ("name", name)) text =
      "/// <param name=\"" ++ (name ++ ("\">" ++ (text ++ "</param>"))) := by
    simp [← String.toList_inj, inlineRow, attributeText]
  have htext : staysComment (text ++ "</param>") = staysComment text := by
    rw [staysComment_append text rfl (by decide)]
    exact Bool.and_true _
  have hquote : ("\">" ++ (text ++ "</param>")).toList =
      '"' :: '>' :: (text ++ "</param>").toList := by
    rw [String.toList_append]
    rfl
  rw [hrow, isRow_append (by decide) (by decide), staysComment_append name hquote (by decide),
    staysComment_append_of_not_mem (by decide), htext]

theorem isRow_inlineRow_returns (text : String) :
    isRow (inlineRow "returns" none text) = staysComment text := by
  have hrow : inlineRow "returns" none text = "/// <returns>" ++ (text ++ "</returns>") := by
    simp [← String.toList_inj, inlineRow, attributeText]
  rw [hrow, isRow_append (by decide) (by decide), staysComment_append text rfl (by decide)]
  exact Bool.and_true _

end Build

namespace Documentation

def rows (documentation : Documentation) : List String :=
  Build.blockRows "summary" documentation.summary ++
    (documentation.params.map (fun (name, text) =>
      Build.inlineRow "param" (some ("name", name)) text) ++
    documentation.returns.toList.map (Build.inlineRow "returns" none))

/-- The names and texts that are put into one row as they are. -/
def inlineTexts (documentation : Documentation) : List String :=
  documentation.params.flatMap (fun (name, text) => [name, text]) ++ documentation.returns.toList

theorem text_toTrivia (documentation : Documentation) :
    ∃ tree, documentation.toTrivia.inner = some tree ∧
      tree.text = String.join (documentation.rows.map (· ++ "\n")) := by
  obtain ⟨tree, htree, htext⟩ := Build.text_documentationComment _
  refine ⟨tree, htree, htext.trans ?_⟩
  rw [List.map_append, List.map_cons, List.cons_append, String.join_cons,
    Build.text_xmlBlockElement, rows, List.map_append, String.join_append]
  simp [Build.text_xmlInlineElement, Function.comp_def]

theorem all_rows (documentation : Documentation) :
    documentation.rows.all Text.isRow = documentation.inlineTexts.all Text.staysComment := by
  rw [rows, List.all_append, Build.all_blockRows, Bool.true_and, inlineTexts, List.all_append,
    List.all_append]
  simp [List.all_map, List.all_flatMap, Function.comp_def, Build.isRow_inlineRow_param,
    Build.isRow_inlineRow_returns]

/-- All lines of a comment are opened by `///` exactly if this holds for every line but the
first of each name and text that is put into one row. -/
theorem isComment_toTrivia_iff (documentation : Documentation) :
    ∃ tree, documentation.toTrivia.inner = some tree ∧
      (Text.isComment tree.text = true ↔
        ∀ text ∈ documentation.inlineTexts, Text.staysComment text = true) := by
  obtain ⟨tree, htree, htext⟩ := documentation.text_toTrivia
  refine ⟨tree, htree, ?_⟩
  have hrows : Text.isComment tree.text = documentation.rows.all Text.isRow :=
    htext ▸ Text.isComment_rows documentation.rows
  rw [hrows, all_rows, List.all_eq_true]

/-- The text of a parameter has two lines, and the second one is not in the comment. -/
theorem not_isComment_brokenParam :
    ∃ tree, (Documentation.mk "S" [("x", "a\nb")] none).toTrivia.inner = some tree ∧
      Text.isComment tree.text = false := by
  refine ⟨_, rfl, ?_⟩
  decide

end Documentation

end SourceTree
