import Mathlib.Data.List.Forall2
import SourceTree.Json.Print
import SourceTree.Proofs.Json.Parse

/-!
What is written can be read back. Both forms of writing, with and without line breaks, spell
the words of the value.
-/
namespace SourceTree.Json

mutual

/-- Every number is spelled as one and nothing is `garbled`. -/
def isProper : Json → Bool
  | .number spelling => isNumber spelling.toList
  | .array items => itemsProper items
  | .object fields => fieldsProper fields
  | .garbled => false
  | .null | .bool _ | .string _ => true

def itemsProper : List Json → Bool
  | [] => true
  | item :: rest => item.isProper && itemsProper rest

def fieldsProper : List (String × Json) → Bool
  | [] => true
  | (_, value) :: rest => value.isProper && fieldsProper rest

end

/-! ### Strings -/

theorem hexValue?_hexDigit : ∀ digit < 16, hexValue? (hexDigit digit) = some digit := by decide

theorem decode_code {n : Nat} (hhigh : isHighSurrogate n = false) (hlow : isLowSurrogate n = false)
    (rest : List Piece) : decode (.code n :: rest) = (decode rest).map (Char.ofNat n :: ·) := by
  cases rest with
  | nil => simp [decode, hhigh, hlow]
  | cons piece rest => cases piece <;> simp [decode, hhigh, hlow]

/-- A character is escaped to one of its spellings. -/
theorem escapeChar_spelled (c : Char) :
    ∃ piece : Piece, piece.Spelled (escapeChar c) ∧
      ∀ rest, decode (piece :: rest) = (decode rest).map (c :: ·) := by
  unfold escapeChar
  split
  · exact ⟨.char '"', .short rfl, fun _ => rfl⟩
  · exact ⟨.char '\\', .short rfl, fun _ => rfl⟩
  · exact ⟨.char '\x08', .short rfl, fun _ => rfl⟩
  · exact ⟨.char '\x0c', .short rfl, fun _ => rfl⟩
  · exact ⟨.char '\n', .short rfl, fun _ => rfl⟩
  · exact ⟨.char '\r', .short rfl, fun _ => rfl⟩
  · exact ⟨.char '\t', .short rfl, fun _ => rfl⟩
  · rename_i quote backslash _ _ _ _ _
    split
    · rename_i hcontrol
      refine ⟨.code c.toNat, ?_, ?_⟩
      · have hspelled := Piece.Spelled.code (show hexValue? '0' = some 0 from rfl)
          (show hexValue? '0' = some 0 from rfl) (hexValue?_hexDigit (c.toNat / 16) (by omega))
          (hexValue?_hexDigit (c.toNat % 16) (by omega))
        have hvalue : 16 * (16 * (16 * 0 + 0) + c.toNat / 16) + c.toNat % 16 = c.toNat := by omega
        rwa [hvalue] at hspelled
      · intro rest
        have hhigh : isHighSurrogate c.toNat = false := by
          simp only [isHighSurrogate, Bool.and_eq_false_iff, decide_eq_false_iff_not]
          omega
        have hlow : isLowSurrogate c.toNat = false := by
          simp only [isLowSurrogate, Bool.and_eq_false_iff, decide_eq_false_iff_not]
          omega
        rw [decode_code hhigh hlow, Char.ofNat_toNat]
    · rename_i hvisible
      exact ⟨.char c, .plain quote backslash (by omega), fun _ => rfl⟩

theorem escaped_spelled (chars : List Char) :
    ∃ pieces, SpelledPieces pieces (chars.flatMap escapeChar) ∧ decode pieces = some chars := by
  induction chars with
  | nil => exact ⟨[], .nil, rfl⟩
  | cons c chars ih =>
    obtain ⟨pieces, hspelled, hdecode⟩ := ih
    obtain ⟨piece, hpiece, hchar⟩ := escapeChar_spelled c
    refine ⟨piece :: pieces, ?_, ?_⟩
    · rw [List.flatMap_cons]
      exact .cons hpiece hspelled
    · rw [hchar, hdecode, Option.map_some]

theorem toList_quoted (text : String) :
    (quoted text).toList = '"' :: (text.toList.flatMap escapeChar ++ ['"']) := by
  simp [quoted]

theorem quoted_spelled (text : String) :
    (Lexeme.string (some text)).Spelled (quoted text).toList := by
  obtain ⟨pieces, hspelled, hdecode⟩ := escaped_spelled text.toList
  have h := Lexeme.Spelled.string hspelled
  rw [hdecode, Option.map_some, String.ofList_toList] at h
  rwa [toList_quoted]

/-! ### Texts that stand for words -/

/-- In front of a text that is apart from it, this text spells these words. -/
def Writes (text : List Char) (words : List Lexeme) : Prop :=
  ∀ rest lexemes, Apart rest → Spells rest lexemes → Spells (text ++ rest) (words ++ lexemes)

theorem Lexeme.Spelled.writes {lexeme : Lexeme} {chars : List Char} (h : lexeme.Spelled chars) :
    Writes chars [lexeme] := by
  intro rest lexemes hapart hrest
  exact .word h (fun _ => hapart) hrest

/-- A gap of white space. -/
def IsGap (chars : List Char) : Prop := ∀ c ∈ chars, isSpace c = true

theorem isGap_nil : IsGap [] := by
  intro c hc
  exact nomatch hc

theorem isGap_cons {c : Char} {chars : List Char} (hc : isSpace c = true) (h : IsGap chars) :
    IsGap (c :: chars) := by
  intro other ho
  rcases List.mem_cons.mp ho with rfl | ho
  · exact hc
  · exact h other ho

theorem isGap_newline : IsGap ['\n'] := isGap_cons rfl isGap_nil

theorem isGap_indentation (level : Nat) : IsGap (indentation level).toList := by
  intro c hc
  rw [indentation, String.toList_ofList] at hc
  rw [List.eq_of_mem_replicate hc]
  rfl

theorem IsGap.spells {gap text : List Char} {lexemes : List Lexeme} (hgap : IsGap gap)
    (h : Spells text lexemes) : Spells (gap ++ text) lexemes := by
  induction gap with
  | nil => exact h
  | cons c gap ih =>
    exact .space (hgap c List.mem_cons_self)
      (ih fun other ho => hgap other (List.mem_cons_of_mem _ ho))

theorem IsGap.writes {gap text : List Char} {words : List Lexeme} (hgap : IsGap gap)
    (h : Writes text words) : Writes (gap ++ text) words := by
  intro rest lexemes hapart hrest
  rw [List.append_assoc]
  exact hgap.spells (h rest lexemes hapart hrest)

theorem apart_cons {c : Char} {text : List Char} (h : isNumberChar c = false) :
    Apart (c :: text) := by
  intro other ho
  obtain rfl : c = other := Option.some.inj ho
  exact h

theorem IsGap.apart {gap text : List Char} (hgap : IsGap gap) (h : Apart text) :
    Apart (gap ++ text) := by
  cases gap with
  | nil => exact h
  | cons c gap =>
    apply apart_cons
    have hc := hgap c List.mem_cons_self
    simp only [isSpace, Bool.or_eq_true, beq_iff_eq] at hc
    rcases hc with ((rfl | rfl) | rfl) | rfl <;> rfl

/-- Parts that each follow a comma. -/
theorem spells_parts {texts : List (List Char)} {parts : List (List Lexeme)}
    (h : List.Forall₂ Writes texts parts) {gap rest : List Char} (hgap : IsGap gap)
    {lexemes : List Lexeme} (hapart : Apart rest) (hrest : Spells rest lexemes) :
    Apart (texts.flatMap ((',' :: gap) ++ ·) ++ rest) ∧
      Spells (texts.flatMap ((',' :: gap) ++ ·) ++ rest)
        (parts.flatMap (Lexeme.comma :: ·) ++ lexemes) := by
  induction h with
  | nil => exact ⟨hapart, hrest⟩
  | @cons text part texts parts hfirst _ ih =>
    obtain ⟨hmore, hspells⟩ := ih
    simp only [List.flatMap_cons, List.cons_append, List.append_assoc]
    refine ⟨apart_cons rfl, ?_⟩
    exact .word .comma (fun h => nomatch h) (hgap.spells (hfirst _ _ hmore hspells))

theorem intercalate_cons {α : Type} (separator first : List α) (rest : List (List α)) :
    List.intercalate separator (first :: rest) = first ++ rest.flatMap (separator ++ ·) := by
  induction rest generalizing first with
  | nil => simp
  | cons next rest ih => rw [List.intercalate_cons_cons, ih]; simp

/-- Parts between brackets, with gaps behind the opening bracket and behind each comma and in
front of the closing bracket. -/
theorem writes_enclosed {opening closing : Lexeme} {o c : Char} (ho : opening.Spelled [o])
    (hopening : opening.isNumber = false) (hc : closing.Spelled [c])
    (hclosing : isNumberChar c = false) {texts : List (List Char)} {parts : List (List Lexeme)}
    (h : List.Forall₂ Writes texts parts) {lead gap trail : List Char} (hlead : IsGap lead)
    (hgap : IsGap gap) (htrail : IsGap trail) :
    Writes (o :: (lead ++ (List.intercalate (',' :: gap) texts ++ (trail ++ [c]))))
      (enclosed opening closing parts) := by
  intro rest lexemes hapart hrest
  have hend : Spells (trail ++ c :: rest) (closing :: lexemes) :=
    htrail.spells (hc.writes rest lexemes hapart hrest)
  have hends : Apart (trail ++ c :: rest) := htrail.apart (apart_cons hclosing)
  cases h with
  | nil =>
    have := Spells.word ho (fun h => absurd h (by simp [hopening])) (hlead.spells hend)
    simpa [enclosed, List.intercalate] using this
  | @cons text part texts parts hfirst hmore =>
    obtain ⟨hsep, hspells⟩ := spells_parts hmore hgap hends hend
    have := Spells.word ho (fun h => absurd h (by simp [hopening]))
      (hlead.spells (hfirst _ _ hsep hspells))
    simpa [enclosed, intercalate_cons] using this

theorem writes_bool (value : Bool) :
    Writes (if value then "true" else "false").toList [if value then .true else .false] := by
  cases value with
  | true => exact Lexeme.Spelled.true.writes
  | false => exact Lexeme.Spelled.false.writes

theorem writes_number {spelling : String} (h : isNumber spelling.toList = true) :
    Writes spelling.toList [.number spelling] := by
  have hspelled := Lexeme.Spelled.number h
  rw [String.ofList_toList] at hspelled
  exact hspelled.writes

/-- A key, a gap behind the colon, and a value. -/
theorem writes_field (key : String) {gap text : List Char} {words : List Lexeme} (hgap : IsGap gap)
    (h : Writes text words) :
    Writes ((quoted key).toList ++ ':' :: (gap ++ text))
      (.string (some key) :: .colon :: words) := by
  intro rest lexemes hapart hrest
  have hvalue : Spells (':' :: (gap ++ (text ++ rest))) (.colon :: (words ++ lexemes)) :=
    .word .colon (fun h => nomatch h) (hgap.spells (h rest lexemes hapart hrest))
  have hkey := Spells.word (quoted_spelled key) (fun h => nomatch h) hvalue
  simpa using hkey

/-! ### Both forms -/

mutual

theorem compact_writes : (json : Json) → json.isProper = true →
    Writes json.compact.toList json.words
  | .null, _ => Lexeme.Spelled.null.writes
  | .bool value, _ => writes_bool value
  | .number spelling, h => writes_number h
  | .string text, _ => (quoted_spelled text).writes
  | .array items, h => by
    have hitems := compactItems_writes items h
    have := writes_enclosed .openBracket rfl .closeBracket rfl hitems isGap_nil isGap_nil isGap_nil
    simpa [compact, words, String.toList_intercalate] using this
  | .object fields, h => by
    have hfields := compactFields_writes fields h
    have := writes_enclosed .openBrace rfl .closeBrace rfl hfields isGap_nil isGap_nil isGap_nil
    simpa [compact, words, String.toList_intercalate] using this

theorem compactItems_writes : (items : List Json) → itemsProper items = true →
    List.Forall₂ Writes ((compactItems items).map String.toList) (itemWords items)
  | [], _ => .nil
  | item :: rest, h => by
    simp only [itemsProper, Bool.and_eq_true] at h
    exact .cons (compact_writes item h.1) (compactItems_writes rest h.2)

theorem compactFields_writes : (fields : List (String × Json)) → fieldsProper fields = true →
    List.Forall₂ Writes ((compactFields fields).map String.toList) (fieldWords fields)
  | [], _ => .nil
  | (key, value) :: rest, h => by
    simp only [fieldsProper, Bool.and_eq_true] at h
    refine .cons ?_ (compactFields_writes rest h.2)
    simpa using writes_field key isGap_nil (compact_writes value h.1)

end

/-- Lines between brackets. -/
theorem enclose_writes {opening closing : Lexeme} {o c : Char} (ho : opening.Spelled [o])
    (hopening : opening.isNumber = false) (hc : closing.Spelled [c])
    (hclosing : isNumberChar c = false) (level : Nat) {items : List String}
    {parts : List (List Lexeme)} (h : List.Forall₂ Writes (items.map String.toList) parts) :
    Writes (enclose (String.ofList [o]) (String.ofList [c]) level items).toList
      (enclosed opening closing parts) := by
  cases items with
  | nil =>
    have := writes_enclosed ho hopening hc hclosing h isGap_nil isGap_nil isGap_nil
    simpa [enclose] using this
  | cons item items =>
    have hlines : List.Forall₂ Writes
        (((item :: items).map (indentation (level + 1) ++ ·)).map String.toList) parts := by
      rw [List.map_map, List.forall₂_map_left_iff]
      refine (List.forall₂_map_left_iff.mp h).imp fun line part hline => ?_
      rw [Function.comp, String.toList_append]
      exact (isGap_indentation _).writes hline
    have := writes_enclosed ho hopening hc hclosing hlines isGap_newline isGap_newline
      (isGap_cons rfl (isGap_indentation level) : IsGap ('\n' :: _))
    have hnewline : "\n".toList = ['\n'] := rfl
    have hcomma : ",\n".toList = [',', '\n'] := rfl
    rw [enclose, if_neg (by simp)]
    simpa only [String.toList_append, String.toList_ofList, String.toList_intercalate, hnewline,
      hcomma, List.append_assoc, List.cons_append, List.nil_append] using this

mutual

theorem pretty_writes : (json : Json) → json.isProper = true → (level : Nat) →
    Writes (json.pretty level).toList json.words
  | .null, _, _ => by
    rw [pretty, words]
    exact Lexeme.Spelled.null.writes
  | .bool value, _, _ => writes_bool value
  | .number spelling, h, _ => writes_number h
  | .string text, _, _ => (quoted_spelled text).writes
  | .array items, h, level =>
    enclose_writes .openBracket rfl .closeBracket rfl level
      (prettyItems_writes items h (level + 1))
  | .object fields, h, level =>
    enclose_writes .openBrace rfl .closeBrace rfl level
      (prettyFields_writes fields h (level + 1))

theorem prettyItems_writes : (items : List Json) → itemsProper items = true → (level : Nat) →
    List.Forall₂ Writes ((prettyItems items level).map String.toList) (itemWords items)
  | [], _, _ => .nil
  | item :: rest, h, level => by
    simp only [itemsProper, Bool.and_eq_true] at h
    exact .cons (pretty_writes item h.1 level) (prettyItems_writes rest h.2 level)

theorem prettyFields_writes : (fields : List (String × Json)) → fieldsProper fields = true →
    (level : Nat) →
    List.Forall₂ Writes ((prettyFields fields level).map String.toList) (fieldWords fields)
  | [], _, _ => .nil
  | (key, value) :: rest, h, level => by
    simp only [fieldsProper, Bool.and_eq_true] at h
    refine .cons ?_ (prettyFields_writes rest h.2 level)
    simpa using writes_field key (isGap_cons rfl isGap_nil) (pretty_writes value h.1 level)

end

/-- A value written on one line is read back. -/
theorem parse?_compact {json : Json} (h : json.isProper = true) :
    parse? json.compact = some json := by
  apply parse?_of_spells
  have hspells := compact_writes json h [] [] (fun c hc => nomatch hc) .nil
  rwa [List.append_nil, List.append_nil] at hspells

theorem spells_pretty {json : Json} (h : json.isProper = true) (level : Nat) :
    Spells (json.pretty level ++ "\n").toList json.words := by
  have hspells := pretty_writes json h level ['\n'] [] (apart_cons rfl) (.space rfl .nil)
  rw [List.append_nil] at hspells
  rwa [String.toList_append]

/-- So is a value written with line breaks, also with one at the end. -/
theorem parse?_pretty {json : Json} (h : json.isProper = true) (level : Nat) :
    parse? (json.pretty level ++ "\n") = some json :=
  parse?_of_spells (spells_pretty h level)

end SourceTree.Json
