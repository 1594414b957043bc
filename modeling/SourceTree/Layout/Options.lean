/-!
Lines of laid out source and the options that turn them into text. Which lines a tree has
does not depend on the options.
-/
namespace SourceTree.Layout

inductive Indent where
  | spaces (width : Nat)
  | tabs
  deriving DecidableEq, Repr

structure Options where
  indent : Indent := .spaces 4
  newline : String := "\n"
  deriving DecidableEq, Repr

/-- Four spaces for each level and a line feed at each end of line. -/
def Options.standard : Options := {}

structure Line where
  level : Nat
  text : String
  deriving DecidableEq, Repr

def Line.blank : Line := ⟨0, ""⟩

/-- What one level of indentation looks like. -/
def Indent.unit : Indent → String
  | .spaces width => String.ofList (List.replicate width ' ')
  | .tabs => "\t"

def Line.render (options : Options) (line : Line) : String :=
  String.join (List.replicate line.level options.indent.unit) ++ line.text ++ options.newline

def render (options : Options) (lines : List Line) : String :=
  String.join (lines.map (Line.render options))

end SourceTree.Layout
