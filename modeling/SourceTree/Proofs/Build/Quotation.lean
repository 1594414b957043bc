import SourceTree.Build.Code
import SourceTree.Proofs.View

/-!
String literals can be read back. Escaping goes over the value twice, once for backslashes and
once for quotes, and together the two passes write each character on its own, as one `Glyph`.
A reader that knows nothing of the value, only that a backslash takes the next character with
it, finds these glyphs again; and since none of them is a bare quote, a literal ends at its own
closing quote whatever text stands behind it.
-/
namespace SourceTree.Build

/-! ### Glyphs -/

/-- What stands at one place between the quotes. -/
inductive Glyph where
  | plain (c : Char)
  /-- A backslash and the character that it takes. -/
  | escaped (c : Char)
  deriving DecidableEq, Repr

namespace Glyph

/-- Undoes the escape. -/
def char : Glyph → Char
  | .plain c => c
  | .escaped c => c

def spelling : Glyph → List Char
  | .plain c => [c]
  | .escaped c => ['\\', c]

/-- How a character of a value is written. -/
def ofChar (c : Char) : Glyph := if c = '\\' ∨ c = '"' then .escaped c else .plain c

theorem char_ofChar (c : Char) : (ofChar c).char = c := by
  unfold ofChar
  split <;> rfl

theorem spelling_ofChar (c : Char) :
    (ofChar c).spelling = if c = '\\' ∨ c = '"' then ['\\', c] else [c] := by
  unfold ofChar
  split <;> rfl

theorem ne_of_ofChar_eq_plain {c d : Char} (h : ofChar c = .plain d) : d ≠ '\\' ∧ d ≠ '"' := by
  unfold ofChar at h
  split at h
  · cases h
  · rename_i hordinary
    cases h
    exact not_or.mp hordinary

theorem eq_of_ofChar_eq_escaped {c d : Char} (h : ofChar c = .escaped d) : d = '\\' ∨ d = '"' := by
  unfold ofChar at h
  split at h
  · rename_i hspecial
    cases h
    exact hspecial
  · cases h

theorem ne_of_plain_mem {cs : List Char} {d : Char} (h : .plain d ∈ cs.map ofChar) :
    d ≠ '\\' ∧ d ≠ '"' := by
  obtain ⟨c, -, hc⟩ := List.mem_map.mp h
  exact ne_of_ofChar_eq_plain hc

theorem eq_of_escaped_mem {cs : List Char} {d : Char} (h : .escaped d ∈ cs.map ofChar) :
    d = '\\' ∨ d = '"' := by
  obtain ⟨c, -, hc⟩ := List.mem_map.mp h
  exact eq_of_ofChar_eq_escaped hc

theorem map_char_ofChar (cs : List Char) : (cs.map ofChar).map char = cs := by
  have hundo : char ∘ ofChar = id := funext char_ofChar
  rw [List.map_map, hundo, List.map_id]

end Glyph

/-! ### The reader -/

/-- Reads from left to right, where a backslash takes the next character with it. There is no
reading if the text ends in a backslash that finds none to take. -/
def glyphs? : List Char → Option (List Glyph)
  | [] => some []
  | ['\\'] => none
  | '\\' :: c :: rest => (glyphs? rest).map (.escaped c :: ·)
  | c :: rest => (glyphs? rest).map (.plain c :: ·)

/-- One step of the reader: it takes a whole glyph off the front. -/
theorem glyphs?_spelling_append {glyph : Glyph} (h : glyph ≠ .plain '\\') (rest : List Char) :
    glyphs? (glyph.spelling ++ rest) = (glyphs? rest).map (glyph :: ·) := by
  cases glyph with
  | escaped c => rw [Glyph.spelling, List.cons_append, List.singleton_append, glyphs?]
  | plain c =>
    have hc : c ≠ '\\' := fun heq => h (congrArg Glyph.plain heq)
    rw [Glyph.spelling, List.singleton_append, glyphs?]
    all_goals simp [hc]

/-- The reader finds the glyphs of which a text is made. -/
theorem glyphs?_flatMap_spelling {glyphs : List Glyph} (h : .plain '\\' ∉ glyphs) :
    glyphs? (glyphs.flatMap Glyph.spelling) = some glyphs := by
  induction glyphs with
  | nil => rfl
  | cons glyph glyphs ih =>
    have hglyph : glyph ≠ .plain '\\' := (List.ne_of_not_mem_cons h).symm
    rw [List.flatMap_cons, glyphs?_spelling_append hglyph, ih (List.not_mem_of_not_mem_cons h),
      Option.map_some]

/-! ### Two passes are one -/

/-- The second pass leaves the marks of the first alone, as they are not its target; in the other
order it would double those put before the target. -/
theorem escapeChar_escapeChar {mark target : Char} (h : mark ≠ target) (cs : List Char) :
    escapeChar mark target (escapeChar mark mark cs) =
      cs.flatMap fun c => if c = mark ∨ c = target then [mark, c] else [c] := by
  rw [escapeChar, escapeChar, List.flatMap_assoc]
  congr 1
  funext c
  by_cases hmark : c = mark
  · simp [hmark, h]
  · simp [hmark]

-- with quotes escaped first, a quote of the value would end its literal
example : glyphs? (escapeChar '\\' '\\' (escapeChar '\\' '"' ['"'])) =
    some [.escaped '\\', .plain '"'] := by decide

/-- The characters of a value as they stand between the quotes. -/
def written (cs : List Char) : List Char := (cs.map Glyph.ofChar).flatMap Glyph.spelling

theorem written_cons (c : Char) (cs : List Char) :
    written (c :: cs) = (Glyph.ofChar c).spelling ++ written cs := by
  rw [written, List.map_cons, List.flatMap_cons, written]

theorem toList_quote (value : String) :
    (quote value).toList = '"' :: (written value.toList ++ ['"']) := by
  have hinside : escapeChar '\\' '"' (escapeChar '\\' '\\' value.toList) =
      written value.toList := by
    rw [escapeChar_escapeChar (by decide), written, List.flatMap_map]
    simp only [Glyph.spelling_ofChar]
  rw [quote, hinside]
  simp

theorem glyphs?_written (cs : List Char) : glyphs? (written cs) = some (cs.map Glyph.ofChar) :=
  glyphs?_flatMap_spelling fun hbackslash => (Glyph.ne_of_plain_mem hbackslash).1 rfl

/-! ### The closing quote -/

theorem spelling_ofChar_append_ne (c : Char) (front back : List Char) :
    (Glyph.ofChar c).spelling ++ front ≠ '"' :: back := by
  rw [Glyph.spelling_ofChar]
  split <;> simp_all

/-- The first glyph of a text can be told from the text. -/
theorem spelling_ofChar_append_inj {c d : Char} {front back : List Char}
    (h : (Glyph.ofChar c).spelling ++ front = (Glyph.ofChar d).spelling ++ back) :
    c = d ∧ front = back := by
  rw [Glyph.spelling_ofChar, Glyph.spelling_ofChar] at h
  split at h <;> split at h
  · simpa using h
  -- of an escaped and a plain character, the plain one would be a backslash
  · rename_i hd
    exact absurd (.inl (List.cons.inj h).1.symm) hd
  · rename_i hc _
    exact absurd (.inl (List.cons.inj h).1) hc
  · simpa using h

theorem written_append_quote_inj {cs ds front back : List Char}
    (h : written cs ++ '"' :: front = written ds ++ '"' :: back) : cs = ds ∧ front = back := by
  induction cs generalizing ds with
  | nil =>
    cases ds with
    | nil => exact ⟨rfl, (List.cons.inj h).2⟩
    | cons d ds =>
      rw [written_cons, List.append_assoc] at h
      exact absurd h.symm (spelling_ofChar_append_ne d _ front)
  | cons c cs ih =>
    rw [written_cons, List.append_assoc] at h
    cases ds with
    | nil => exact absurd h (spelling_ofChar_append_ne c _ back)
    | cons d ds =>
      rw [written_cons, List.append_assoc] at h
      obtain ⟨rfl, hrest⟩ := spelling_ofChar_append_inj h
      obtain ⟨rfl, hback⟩ := ih hrest
      exact ⟨rfl, hback⟩

/-- No quoted value is the beginning of another, so what stands behind it does not matter. -/
theorem quote_append_inj {first second front back : String}
    (h : quote first ++ front = quote second ++ back) : first = second ∧ front = back := by
  have hchars := congrArg String.toList h
  simp only [String.toList_append, toList_quote, List.cons_append, List.append_assoc,
    List.cons.injEq, true_and] at hchars
  obtain ⟨hvalue, hrest⟩ := written_append_quote_inj hchars
  exact ⟨String.toList_inj.mp hvalue, String.toList_inj.mp hrest⟩

/-! ### Literals -/

theorem text_stringLiteral (value : String) : (stringLiteral value).text = quote value := by
  have htokens : (stringLiteral value).tokens = [.ofText .stringLiteral (quote value)] := rfl
  rw [Node.text_eq_join, htokens]
  simp [Token.ofText, Token.fullText, triviaTexts]

/-- A string literal is one token between two quotes. Read from left to right, what stands between
them has no bare quote and no backslash without a character to take, takes only backslashes and
quotes, and stands for the value; so different values have different texts. -/
theorem stringLiteral_unambiguous :
    (∀ value : String, ∃ (inside : List Char) (glyphs : List Glyph),
      (stringLiteral value).tokens =
        [.ofText .stringLiteral (String.ofList ('"' :: (inside ++ ['"'])))] ∧
      glyphs? inside = some glyphs ∧
      .plain '"' ∉ glyphs ∧
      (∀ c, .escaped c ∈ glyphs → c = '\\' ∨ c = '"') ∧
      String.ofList (glyphs.map Glyph.char) = value) ∧
    Function.Injective fun value => (stringLiteral value).text := by
  refine ⟨fun value => ?_, fun first second h => ?_⟩
  · refine ⟨written value.toList, value.toList.map Glyph.ofChar, ?_, glyphs?_written _, ?_, ?_, ?_⟩
    · rw [← toList_quote, String.ofList_toList]
      rfl
    · exact fun hquote => (Glyph.ne_of_plain_mem hquote).2 rfl
    · exact fun c hescaped => Glyph.eq_of_escaped_mem hescaped
    · rw [Glyph.map_char_ofChar, String.ofList_toList]
  · simp only [text_stringLiteral] at h
    have hbare : quote first ++ "" = quote second ++ "" := by rw [h]
    exact (quote_append_inj hbare).1

end SourceTree.Build
