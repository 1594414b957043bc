import SourceTree.Json.Value

/-!
Writing JSON, without any space or laid out with two spaces for each level.
-/
namespace SourceTree.Json

def hexDigit (n : Nat) : Char := if n < 10 then Char.ofNat (48 + n) else Char.ofNat (87 + n)

/-- Quotes, backslashes and control characters are escaped, nothing else is. -/
def escapeChar (c : Char) : List Char :=
  match c with
  | '"' => ['\\', '"']
  | '\\' => ['\\', '\\']
  | '\x08' => ['\\', 'b']
  | '\x0c' => ['\\', 'f']
  | '\n' => ['\\', 'n']
  | '\r' => ['\\', 'r']
  | '\t' => ['\\', 't']
  | c =>
    if c.toNat < 0x20 then ['\\', 'u', '0', '0', hexDigit (c.toNat / 16), hexDigit (c.toNat % 16)]
    else [c]

def quoted (text : String) : String :=
  "\"" ++ String.ofList (text.toList.flatMap escapeChar) ++ "\""

mutual

/-- On one line. Values read from a text that is `garbled` have no spelling to give back. -/
def compact : Json → String
  | .null => "null"
  | .bool value => if value then "true" else "false"
  | .number spelling => spelling
  | .string text => quoted text
  | .array items => "[" ++ String.intercalate "," (compactItems items) ++ "]"
  | .object fields => "\x7b" ++ String.intercalate "," (compactFields fields) ++ "\x7d"
  | .garbled => "null"

def compactItems : List Json → List String
  | [] => []
  | item :: rest => item.compact :: compactItems rest

def compactFields : List (String × Json) → List String
  | [] => []
  | (key, value) :: rest => (quoted key ++ ":" ++ value.compact) :: compactFields rest

end

def indentation (level : Nat) : String := String.ofList (List.replicate (2 * level) ' ')

/-- Puts the lines of a container between its brackets. -/
def enclose (opening closing : String) (level : Nat) (items : List String) : String :=
  if items.isEmpty then opening ++ closing
  else
    opening ++ "\n" ++ String.intercalate ",\n" (items.map (indentation (level + 1) ++ ·)) ++
      "\n" ++ indentation level ++ closing

mutual

/-- Every item and every field on a line of its own. -/
def pretty : Json → Nat → String
  | .null, _ => "null"
  | .bool value, _ => if value then "true" else "false"
  | .number spelling, _ => spelling
  | .string text, _ => quoted text
  | .array items, level => enclose "[" "]" level (prettyItems items (level + 1))
  | .object fields, level => enclose "\x7b" "\x7d" level (prettyFields fields (level + 1))
  | .garbled, _ => "null"

def prettyItems : List Json → Nat → List String
  | [], _ => []
  | item :: rest, level => item.pretty level :: prettyItems rest level

def prettyFields : List (String × Json) → Nat → List String
  | [], _ => []
  | (key, value) :: rest, level =>
    (quoted key ++ ": " ++ value.pretty level) :: prettyFields rest level

end

end SourceTree.Json
