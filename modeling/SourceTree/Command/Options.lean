import SourceTree.Layout.Options

/-!
What a run of the command line is asked to do.
-/
namespace SourceTree.Command

/-- The form in which the result is written. -/
inductive Emit where
  | verbatim | formatted | json
  deriving DecidableEq, Repr

inductive IndentStyle where
  | spaces | tabs
  deriving DecidableEq, Repr

inductive Newline where
  | lf | crlf
  deriving DecidableEq, Repr

structure Renaming where
  old : String
  new : String
  deriving DecidableEq, Repr

structure Options where
  /-- A path, or `-` for standard input. -/
  input : String := "-"
  /-- A path; standard output where there is none. -/
  output : Option String := none
  tokenRenamings : List Renaming := []
  methodRenamings : List Renaming := []
  normalizeUsings : Bool := false
  emit : Emit := .formatted
  indent : IndentStyle := .spaces
  indentWidth : Nat := 4
  newline : Newline := .lf
  deriving DecidableEq, Repr

def Options.layout (options : Options) : Layout.Options where
  indent := match options.indent with
    | .spaces => .spaces options.indentWidth
    | .tabs => .tabs
  newline := match options.newline with
    | .lf => "\n"
    | .crlf => "\r\n"

end SourceTree.Command
