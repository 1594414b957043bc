import SourceTree.Command.Options
import SourceTree.Json.Print
import SourceTree.Json.Tree
import SourceTree.Layout.Format
import SourceTree.Pipeline.Basic
import SourceTree.Rename
import SourceTree.Usings

/-!
From the options and the bytes of the input to the text of the output.
-/
namespace SourceTree.Command

inductive RunError where
  | unreadable (path : String)
  | unparsable (path : String)
  | passFailed (fault : Fault)
  /-- Nesting of requests went beyond the bound for the tree. -/
  | starved
  | unwritable (path : String)
  deriving DecidableEq, Repr

def RunError.message : RunError → String
  | .unreadable path => if path = "-" then "failed to read stdin" else "failed to read " ++ path
  | .unparsable path => "failed to parse syntax tree from " ++ path
  | .passFailed fault => fault.message
  | .starved => "rewrite failed"
  | .unwritable path => "failed to write " ++ path

/-- The new text of a token. All renamings act at once, and of several for one name the last
one counts. -/
def renamed? (renamings : List Renaming) (token : Token) : Option String :=
  if token.isIdentifier then
    (renamings.reverse.find? fun pair => pair.old == token.text).map Renaming.new
  else none

namespace Options

variable {σ : Type}

def methodPassId (index : Nat) (old : String) : String :=
  "rename-method:" ++ toString index ++ ":" ++ old

/-- One pass for each renaming, each behind the one before it. -/
def addMethodPasses (pipeline : Pipeline σ) (index : Nat) (previous : List String) :
    List Renaming → Pipeline σ
  | [] => pipeline
  | pair :: rest =>
    let id := methodPassId index pair.old
    let traversal := methodRenamer (fun method => method.isNamed pair.old) pair.new
    addMethodPasses (pipeline.add { id, dependencies := previous, traversal }) (index + 1) [id] rest

/-- Renames tokens, then methods, then puts the usings in order. -/
def pipeline (options : Options) (sorter : Usings.Sorter) : Pipeline σ :=
  let tokens : Pipeline σ :=
    if options.tokenRenamings.isEmpty then Pipeline.empty
    else Pipeline.empty.add
      { id := "rename-tokens", traversal := tokenRenamer (renamed? options.tokenRenamings) }
  let methods := addMethodPasses tokens 0 [] options.methodRenamings
  if options.normalizeUsings then
    methods.add { id := "normalize-usings", traversal := usingNormalizerBy sorter }
  else methods

def render (options : Options) (tree : Node) : String :=
  match options.emit with
  | .verbatim => tree.text
  | .formatted => Layout.format tree options.layout
  | .json => tree.toJson.pretty 0 ++ "\n"

/-- Runs the pipeline on a tree and writes the result in the form asked for. -/
def process (options : Options) (tree : Node) : Except RunError String :=
  match (options.pipeline Usings.insertion).apply Node.fuel tree () with
  | .done result _ => .ok (options.render result)
  | .failed fault _ => .error (.passFailed fault)
  | .starved => .error .starved

/-- The whole run between reading and writing. There is no content where the input could not
be read. -/
def run (options : Options) (content : Option ByteArray) : Except RunError String :=
  match content.bind String.fromUTF8? with
  | none => .error (.unreadable options.input)
  | some text =>
    match Node.ofText? text with
    | none => .error (.unparsable options.input)
    | some tree => options.process tree

end Options

end SourceTree.Command
