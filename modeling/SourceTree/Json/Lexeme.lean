/-!
The words of JSON. A scanner goes through the characters of a text one by one; white space
separates words and is dropped.
-/
namespace SourceTree.Json

inductive Lexeme where
  | openBrace | closeBrace | openBracket | closeBracket | colon | comma
  | null | true | false
  | number (spelling : String)
  /-- Without a text where an escape is half of a surrogate pair. -/
  | string (text : Option String)
  deriving DecidableEq, Repr

/-- What one place in a string stands for: a character, or a number from a `\u` escape. -/
inductive Piece where
  | char (c : Char)
  | code (n : Nat)
  deriving DecidableEq, Repr

def isHighSurrogate (n : Nat) : Bool := 0xD800 ≤ n && n ≤ 0xDBFF

def isLowSurrogate (n : Nat) : Bool := 0xDC00 ≤ n && n ≤ 0xDFFF

/-- The character that a surrogate pair encodes. -/
def pairChar (high low : Nat) : Char :=
  Char.ofNat (0x10000 + (high - 0xD800) * 0x400 + (low - 0xDC00))

/-- The characters of a string; a surrogate that is not in a pair spoils it. -/
def decode : List Piece → Option (List Char)
  | [] => some []
  | .char c :: rest => (decode rest).map (c :: ·)
  | .code high :: .code low :: rest =>
    if isHighSurrogate high then
      if isLowSurrogate low then (decode rest).map (pairChar high low :: ·) else none
    else if isLowSurrogate high then none
    else (decode (.code low :: rest)).map (Char.ofNat high :: ·)
  | .code n :: rest =>
    if isHighSurrogate n || isLowSurrogate n then none else (decode rest).map (Char.ofNat n :: ·)

/-- How far a number has been read. -/
inductive NumberPart where
  | minus | zero | whole | point | fraction | mark | sign | exponent
  deriving DecidableEq, Repr

namespace NumberPart

def isDigit (c : Char) : Bool := '0' ≤ c && c ≤ '9'

def isMark (c : Char) : Bool := c == 'e' || c == 'E'

/-- Where a further character leads, if it belongs to the number. -/
def step (part : NumberPart) (c : Char) : Option NumberPart :=
  match part with
  | .minus => if c = '0' then some .zero else if isDigit c then some .whole else none
  | .zero => if c = '.' then some .point else if isMark c then some .mark else none
  | .whole =>
    if isDigit c then some .whole
    else if c = '.' then some .point
    else if isMark c then some .mark
    else none
  | .point => if isDigit c then some .fraction else none
  | .fraction => if isDigit c then some .fraction else if isMark c then some .mark else none
  | .mark => if c = '+' || c = '-' then some .sign else if isDigit c then some .exponent else none
  | .sign => if isDigit c then some .exponent else none
  | .exponent => if isDigit c then some .exponent else none

/-- The number may end here. -/
def mayEnd : NumberPart → Bool
  | .zero | .whole | .fraction | .exponent => Bool.true
  | _ => Bool.false

end NumberPart

/-- What the scanner is in the middle of. Lists of what was read are in reverse. -/
inductive Scan where
  | gap
  /-- The letters of a word that are still to come, and the word. -/
  | word (rest : List Char) (lexeme : Lexeme)
  | number (part : NumberPart) (read : List Char)
  | string (read : List Piece)
  | escape (read : List Piece)
  /-- The digits of a `\u` escape that are still to come, and the value of those read. -/
  | hex (missing : Nat) (value : Nat) (read : List Piece)
  deriving DecidableEq, Repr

def isSpace (c : Char) : Bool := c == ' ' || c == '\n' || c == '\t' || c == '\r'

def hexValue? (c : Char) : Option Nat :=
  if '0' ≤ c && c ≤ '9' then some (c.toNat - 48)
  else if 'a' ≤ c && c ≤ 'f' then some (c.toNat - 87)
  else if 'A' ≤ c && c ≤ 'F' then some (c.toNat - 55)
  else none

/-- The character that a single letter behind a backslash stands for. -/
def shortEscape? : Char → Option Char
  | '"' => some '"'
  | '\\' => some '\\'
  | '/' => some '/'
  | 'b' => some '\x08'
  | 'f' => some '\x0c'
  | 'n' => some '\n'
  | 'r' => some '\r'
  | 't' => some '\t'
  | _ => none

/-- The first character of a word, or white space. -/
def start (c : Char) : Option (Scan × List Lexeme) :=
  if isSpace c then some (.gap, [])
  else
    match c with
    | '\x7b' => some (.gap, [.openBrace])
    | '\x7d' => some (.gap, [.closeBrace])
    | '[' => some (.gap, [.openBracket])
    | ']' => some (.gap, [.closeBracket])
    | ':' => some (.gap, [.colon])
    | ',' => some (.gap, [.comma])
    | 'n' => some (.word ['u', 'l', 'l'] .null, [])
    | 't' => some (.word ['r', 'u', 'e'] .true, [])
    | 'f' => some (.word ['a', 'l', 's', 'e'] .false, [])
    | '"' => some (.string [], [])
    | '-' => some (.number .minus ['-'], [])
    | c => (NumberPart.minus.step c).map fun part => (.number part [c], [])

/-- The scanner after a further character, and the words that it completes. -/
def Scan.step (scan : Scan) (c : Char) : Option (Scan × List Lexeme) :=
  match scan with
  | .gap => start c
  | .word [] lexeme => (start c).map fun (scan, lexemes) => (scan, lexeme :: lexemes)
  | .word (letter :: rest) lexeme =>
    if c = letter then some (.word rest lexeme, []) else none
  | .number part read =>
    match part.step c with
    | some part => some (.number part (c :: read), [])
    | none =>
      if part.mayEnd then
        (start c).map fun (scan, lexemes) =>
          (scan, .number (String.ofList read.reverse) :: lexemes)
      else none
  | .string read =>
    if c = '"' then some (.gap, [.string ((decode read.reverse).map String.ofList)])
    else if c = '\\' then some (.escape read, [])
    else if c.toNat < 0x20 then none
    else some (.string (.char c :: read), [])
  | .escape read =>
    if c = 'u' then some (.hex 3 0 read, [])
    else (shortEscape? c).map fun c => (.string (.char c :: read), [])
  | .hex missing value read =>
    (hexValue? c).map fun digit =>
      match missing with
      | 0 => (.string (.code (16 * value + digit) :: read), [])
      | missing + 1 => (.hex missing (16 * value + digit) read, [])

/-- The words that the end of the text completes. -/
def Scan.finish : Scan → Option (List Lexeme)
  | .gap => some []
  | .word [] lexeme => some [lexeme]
  | .number part read =>
    if part.mayEnd then some [.number (String.ofList read.reverse)] else none
  | _ => none

/-- Goes on with `scan` when the words in `done`, in reverse, are complete. -/
def scanFrom (scan : Scan) (done : List Lexeme) : List Char → Option (List Lexeme)
  | [] => scan.finish.map fun lexemes => done.reverse ++ lexemes
  | c :: rest =>
    match scan.step c with
    | none => none
    | some (scan, lexemes) => scanFrom scan (lexemes.reverse ++ done) rest

/-- The words of a text. -/
def lexemes? (text : String) : Option (List Lexeme) := scanFrom .gap [] text.toList

end SourceTree.Json
