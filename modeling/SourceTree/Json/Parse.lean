import SourceTree.Json.Value
import SourceTree.Json.Lexeme

/-!
From words to values. The machine reads one word at a time and keeps the containers that are
still open on a stack, so nesting has no limit here.
-/
namespace SourceTree.Json

/-- An open container: what it holds so far, in reverse, and for an object the key whose
value comes next. -/
inductive Frame where
  | array (items : List Json)
  | object (fields : List (Option String × Json)) (key : Option String)
  deriving Repr

inductive State where
  /-- A value comes next. -/
  | value (stack : List Frame)
  /-- Directly behind `[`. -/
  | firstItem (stack : List Frame)
  | afterItem (items : List Json) (stack : List Frame)
  /-- Directly behind `\x7b`. -/
  | firstKey (stack : List Frame)
  | nextKey (fields : List (Option String × Json)) (stack : List Frame)
  | afterKey (fields : List (Option String × Json)) (key : Option String) (stack : List Frame)
  | afterField (fields : List (Option String × Json)) (stack : List Frame)
  | done (value : Json)
  deriving Repr

/-- Hands a complete value to the innermost open container. -/
def deliver (value : Json) : List Frame → State
  | [] => .done value
  | .array items :: stack => .afterItem (value :: items) stack
  | .object fields key :: stack => .afterField ((key, value) :: fields) stack

/-- The fields of an object if every key has a text. -/
def textFields? : List (Option String × Json) → Option (List (String × Json))
  | [] => some []
  | (none, _) :: _ => none
  | (some key, value) :: rest => (textFields? rest).map ((key, value) :: ·)

def closeObject (fields : List (Option String × Json)) : Json :=
  match textFields? fields.reverse with
  | some fields => .object fields
  | none => .garbled

/-- The first word of a value. -/
def beginValue (stack : List Frame) : Lexeme → Option State
  | .null => some (deliver .null stack)
  | .true => some (deliver (.bool true) stack)
  | .false => some (deliver (.bool false) stack)
  | .number spelling => some (deliver (.number spelling) stack)
  | .string (some text) => some (deliver (.string text) stack)
  | .string none => some (deliver .garbled stack)
  | .openBracket => some (.firstItem stack)
  | .openBrace => some (.firstKey stack)
  | _ => none

def State.step : State → Lexeme → Option State
  | .value stack, lexeme => beginValue stack lexeme
  | .firstItem stack, .closeBracket => some (deliver (.array []) stack)
  | .firstItem stack, lexeme => beginValue (.array [] :: stack) lexeme
  | .afterItem items stack, .comma => some (.value (.array items :: stack))
  | .afterItem items stack, .closeBracket => some (deliver (.array items.reverse) stack)
  | .firstKey stack, .closeBrace => some (deliver (.object []) stack)
  | .firstKey stack, .string key => some (.afterKey [] key stack)
  | .nextKey fields stack, .string key => some (.afterKey fields key stack)
  | .afterKey fields key stack, .colon => some (.value (.object fields key :: stack))
  | .afterField fields stack, .comma => some (.nextKey fields stack)
  | .afterField fields stack, .closeBrace => some (deliver (closeObject fields) stack)
  | _, _ => none

def State.run : State → List Lexeme → Option State
  | state, [] => some state
  | state, lexeme :: rest =>
    match state.step lexeme with
    | some state => run state rest
    | none => none

/-- The value that a text spells, if it is JSON. -/
def parse? (text : String) : Option Json :=
  match lexemes? text with
  | none => none
  | some lexemes =>
    match State.run (.value []) lexemes with
    | some (.done value) => some value
    | _ => none

end SourceTree.Json
