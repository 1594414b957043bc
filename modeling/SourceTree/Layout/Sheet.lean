import SourceTree.View
import SourceTree.Layout.Options
import SourceTree.Text.Split
import SourceTree.Text.Blank

/-!
A sheet that is written from top to bottom. It knows what one level of indentation and the end of
a line look like, and everything is appended to what it holds.
-/
namespace SourceTree.Layout

structure Sheet where
  unit : String
  newline : String
  out : String
  deriving DecidableEq, Repr

namespace Sheet

def empty (options : Options) : Sheet := ⟨options.indent.unit, options.newline, ""⟩

def push (text : String) (sheet : Sheet) : Sheet := { sheet with out := sheet.out ++ text }

/-- Pushes the unit of indentation once for each level. -/
def indent : Nat → Sheet → Sheet
  | 0, sheet => sheet
  | level + 1, sheet => indent level (sheet.push sheet.unit)

def line (level : Nat) (text : String) (sheet : Sheet) : Sheet :=
  let indented := (sheet.indent level).push text
  indented.push indented.newline

def blank (sheet : Sheet) : Sheet := sheet.push sheet.newline

/-- Writes one item after another. -/
def each {α : Type} (items : List α) (write : α → Sheet → Sheet) (sheet : Sheet) : Sheet :=
  items.foldl (fun sheet item => write item sheet) sheet

/-- Comments keep their lines, documentation those of its text; directives are not indented. -/
def trivia (level : Nat) (trivia : Trivia) : Sheet → Sheet :=
  match trivia.kind with
  | .singleLineComment | .multiLineComment =>
    each (Text.lines trivia.text) fun text => line level (Text.trim text)
  | .documentationComment =>
    match trivia.inner with
    | some inner => each (Text.lines inner.text) fun text => line level text
    | none => id
  | .directive => line 0 (Text.trim trivia.text)
  | _ => id

/-- What is kept from the trivia in front of a token. -/
def comments (token : Token) (level : Nat) : Sheet → Sheet :=
  each token.leading fun trivia => Sheet.trivia level trivia

/-- What is kept from the trivia in front of the first token of a node. -/
def leadingComments (node : Node) (level : Nat) : Sheet → Sheet :=
  match node.firstToken? with
  | some token => comments token level
  | none => id

end Sheet

end SourceTree.Layout
