import SourceTree.Json.Parse
import SourceTree.Proofs.Json.Spelling

/-!
The words of a value, and that the machine builds the value from them. Together with
`lexemes?_of_spells` a text is read as the value whose words it spells. `Denotes` is the
grammar of all texts; `words` gives each value one list of words.
-/
namespace SourceTree.Json

/-- Parts with commas between them, in a pair of brackets. -/
def enclosed (opening closing : Lexeme) : List (List Lexeme) → List Lexeme
  | [] => [opening, closing]
  | part :: parts => opening :: (part ++ (parts.flatMap (Lexeme.comma :: ·) ++ [closing]))

mutual

/-- A value that is `garbled` has the words of a string without a text. -/
def words : Json → List Lexeme
  | .null => [.null]
  | .bool value => [if value then .true else .false]
  | .number spelling => [.number spelling]
  | .string text => [.string (some text)]
  | .array items => enclosed .openBracket .closeBracket (itemWords items)
  | .object fields => enclosed .openBrace .closeBrace (fieldWords fields)
  | .garbled => [.string none]

def itemWords : List Json → List (List Lexeme)
  | [] => []
  | item :: rest => item.words :: itemWords rest

def fieldWords : List (String × Json) → List (List Lexeme)
  | [] => []
  | (key, value) :: rest => (.string (some key) :: .colon :: value.words) :: fieldWords rest

end

/-! ### The grammar -/

mutual

/-- The words of a value. Strings and keys that hold half of a surrogate pair have no text, and
leave the string or the object `garbled`. -/
inductive Denotes : List Lexeme → Json → Prop where
  | null : Denotes [.null] .null
  | true : Denotes [.true] (.bool Bool.true)
  | false : Denotes [.false] (.bool Bool.false)
  | number (spelling : String) : Denotes [.number spelling] (.number spelling)
  | string (text : String) : Denotes [.string (some text)] (.string text)
  | halfString : Denotes [.string none] .garbled
  | array {parts : List (List Lexeme)} {items : List Json} (h : DenotesItems parts items) :
      Denotes (enclosed .openBracket .closeBracket parts) (.array items)
  | object {parts : List (List Lexeme)} {fields : List (String × Json)}
      (h : DenotesFields parts (fields.map fun field => (some field.1, field.2))) :
      Denotes (enclosed .openBrace .closeBrace parts) (.object fields)
  | halfKey {parts : List (List Lexeme)} {fields : List (Option String × Json)}
      (h : DenotesFields parts fields) (half : none ∈ fields.map Prod.fst) :
      Denotes (enclosed .openBrace .closeBrace parts) .garbled

inductive DenotesItems : List (List Lexeme) → List Json → Prop where
  | nil : DenotesItems [] []
  | cons {part : List Lexeme} {parts : List (List Lexeme)} {item : Json} {items : List Json}
      (h : Denotes part item) (rest : DenotesItems parts items) :
      DenotesItems (part :: parts) (item :: items)

inductive DenotesFields : List (List Lexeme) → List (Option String × Json) → Prop where
  | nil : DenotesFields [] []
  | cons {part : List Lexeme} {parts : List (List Lexeme)} {key : Option String} {value : Json}
      {fields : List (Option String × Json)} (h : Denotes part value)
      (rest : DenotesFields parts fields) :
      DenotesFields ((.string key :: .colon :: part) :: parts) ((key, value) :: fields)

end

mutual

theorem denotes_words : (json : Json) → Denotes json.words json
  | .null => .null
  | .bool true => .true
  | .bool false => .false
  | .number spelling => .number spelling
  | .string text => .string text
  | .array items => .array (denotes_itemWords items)
  | .object fields => .object (denotes_fieldWords fields)
  | .garbled => .halfString

theorem denotes_itemWords : (items : List Json) → DenotesItems (itemWords items) items
  | [] => .nil
  | item :: rest => .cons (denotes_words item) (denotes_itemWords rest)

theorem denotes_fieldWords : (fields : List (String × Json)) →
    DenotesFields (fieldWords fields) (fields.map fun field => (some field.1, field.2))
  | [] => .nil
  | (_, value) :: rest => .cons (denotes_words value) (denotes_fieldWords rest)

end

/-! ### The machine -/

theorem run_cons {state next : State} {lexeme : Lexeme} {rest : List Lexeme}
    (h : state.step lexeme = some next) : state.run (lexeme :: rest) = next.run rest := by
  rw [State.run, h]

/-- No value starts with a closing bracket. -/
theorem Denotes.eq_cons {words : List Lexeme} {json : Json} (h : Denotes words json) :
    ∃ first rest, words = first :: rest ∧ first ≠ .closeBracket := by
  cases h with
  | @array parts => cases parts <;> exact ⟨.openBracket, _, rfl, by decide⟩
  | @object parts | @halfKey parts => cases parts <;> exact ⟨.openBrace, _, rfl, by decide⟩
  | null | true | false | number | string | halfString => exact ⟨_, [], rfl, nofun⟩

/-- Behind the opening bracket a value is read as anywhere else. -/
theorem Denotes.run_firstItem {words : List Lexeme} {json : Json} (h : Denotes words json)
    (stack : List Frame) (rest : List Lexeme) :
    State.run (.firstItem stack) (words ++ rest) =
      State.run (.value (.array [] :: stack)) (words ++ rest) := by
  obtain ⟨first, more, hwords, hfirst⟩ := h.eq_cons
  have hstep : State.step (.firstItem stack) first =
      State.step (.value (.array [] :: stack)) first := by
    cases first with
    | closeBracket => exact absurd rfl hfirst
    | openBrace | closeBrace | openBracket | colon | comma => rfl
    | null | true | false | number | string => rfl
  rw [hwords, List.cons_append, State.run, State.run, hstep]

theorem textFields?_map (fields : List (String × Json)) :
    textFields? (fields.map fun field => (some field.1, field.2)) = some fields := by
  induction fields with
  | nil => rfl
  | cons field fields ih => simp [textFields?, ih]

theorem textFields?_eq_none {fields : List (Option String × Json)}
    (h : none ∈ fields.map Prod.fst) : textFields? fields = none := by
  induction fields with
  | nil => cases h
  | cons field fields ih =>
    obtain ⟨key, value⟩ := field
    cases key with
    | none => rfl
    | some key =>
      have hrest : none ∈ fields.map Prod.fst := by simpa using h
      rw [textFields?, ih hrest, Option.map_none]

mutual

/-- The machine builds a value from its words and hands it on. -/
theorem run_denotes : {words : List Lexeme} → {json : Json} → Denotes words json →
    (stack : List Frame) → (rest : List Lexeme) →
    State.run (.value stack) (words ++ rest) = State.run (deliver json stack) rest
  | _, _, .null, _, _ => rfl
  | _, _, .true, _, _ => rfl
  | _, _, .false, _, _ => rfl
  | _, _, .number _, _, _ => rfl
  | _, _, .string _, _, _ => rfl
  | _, _, .halfString, _, _ => rfl
  | _, _, .array h, stack, rest => run_array h stack rest
  | _, _, .object h, stack, rest => by
    rw [run_object h, closeObject, List.reverse_reverse, textFields?_map]
  | _, _, .halfKey h half, stack, rest => by
    rw [run_object h, closeObject, List.reverse_reverse, textFields?_eq_none half]

theorem run_array : {parts : List (List Lexeme)} → {items : List Json} →
    DenotesItems parts items → (stack : List Frame) → (rest : List Lexeme) →
    State.run (.value stack) (enclosed .openBracket .closeBracket parts ++ rest) =
      State.run (deliver (.array items) stack) rest
  | _, _, .nil, _, _ => rfl
  | _, _, .cons h hrest, stack, rest => by
    simp only [enclosed, List.cons_append, List.append_assoc, List.nil_append]
    rw [run_cons rfl, h.run_firstItem, run_denotes h]
    exact run_items hrest [_] stack rest

/-- What was read so far stays in front. -/
theorem run_items : {parts : List (List Lexeme)} → {items : List Json} →
    DenotesItems parts items → (before : List Json) → (stack : List Frame) →
    (rest : List Lexeme) →
    State.run (.afterItem before.reverse stack)
        (parts.flatMap (Lexeme.comma :: ·) ++ .closeBracket :: rest) =
      State.run (deliver (.array (before ++ items)) stack) rest
  | _, _, .nil, before, stack, rest => by
    rw [List.append_nil, List.flatMap_nil, List.nil_append, run_cons rfl, List.reverse_reverse]
  | _, _, @DenotesItems.cons _ _ item _ h hrest, before, stack, rest => by
    have hitems := run_items hrest (before ++ [item]) stack rest
    simp only [List.flatMap_cons, List.cons_append, List.append_assoc]
    rw [run_cons rfl, run_denotes h]
    simpa [deliver] using hitems

theorem run_object : {parts : List (List Lexeme)} → {fields : List (Option String × Json)} →
    DenotesFields parts fields → (stack : List Frame) → (rest : List Lexeme) →
    State.run (.value stack) (enclosed .openBrace .closeBrace parts ++ rest) =
      State.run (deliver (closeObject fields.reverse) stack) rest
  | _, _, .nil, _, _ => rfl
  | _, _, .cons h hrest, stack, rest => by
    simp only [enclosed, List.cons_append, List.append_assoc, List.nil_append]
    rw [run_cons rfl, run_cons rfl, run_cons rfl, run_denotes h]
    exact run_fields hrest [_] stack rest

theorem run_fields : {parts : List (List Lexeme)} → {fields : List (Option String × Json)} →
    DenotesFields parts fields → (before : List (Option String × Json)) →
    (stack : List Frame) → (rest : List Lexeme) →
    State.run (.afterField before.reverse stack)
        (parts.flatMap (Lexeme.comma :: ·) ++ .closeBrace :: rest) =
      State.run (deliver (closeObject (before ++ fields).reverse) stack) rest
  | _, _, .nil, before, stack, rest => by
    rw [List.append_nil, List.flatMap_nil, List.nil_append, run_cons rfl]
  | _, _, @DenotesFields.cons _ _ key value _ h hrest, before, stack, rest => by
    have hfields := run_fields hrest (before ++ [(key, value)]) stack rest
    simp only [List.flatMap_cons, List.cons_append, List.append_assoc]
    rw [run_cons rfl, run_cons rfl, run_cons rfl, run_denotes h]
    simpa [deliver] using hfields

end

/-- A text is read as the value whose words it spells. -/
theorem parse?_of_denotes {text : String} {words : List Lexeme} {json : Json}
    (hwords : Denotes words json) (htext : Spells text.toList words) : parse? text = some json := by
  have hrun := run_denotes hwords [] []
  rw [List.append_nil] at hrun
  rw [parse?, lexemes?_of_spells htext]
  simp only [hrun, State.run, deliver]

theorem parse?_of_spells {text : String} {json : Json} (h : Spells text.toList json.words) :
    parse? text = some json :=
  parse?_of_denotes (denotes_words json) h

end SourceTree.Json
