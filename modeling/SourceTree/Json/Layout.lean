import SourceTree.Layout.Options
import SourceTree.Json.Tree

/-!
Layout options as JSON. Both fields may be left out.
-/
namespace SourceTree.Layout

def Indent.toJson : Indent → Json
  | .spaces width => .object [("spaces", .number (toString width))]
  | .tabs => .string "tabs"

def Options.toJson (options : Options) : Json :=
  .object [("indent", options.indent.toJson), ("newline", .string options.newline)]

/-- A number spelled with digits only that is below 2^64. -/
def width? : Json → Option Nat
  | .number spelling =>
    if spelling.toList.all Json.NumberPart.isDigit then
      let value := spelling.toList.foldl (fun n c => 10 * n + (c.toNat - 48)) 0
      if value < UInt64.size then some value else none
    else none
  | _ => none

def Indent.ofJson? : Json → Option Indent
  | .object [("spaces", value)] => (width? value).map .spaces
  | json => if json.wrappedChoice? = some "tabs" then some .tabs else none

def Options.ofJson? (json : Json) : Option Options :=
  match json.record? ["indent", "newline"] 2 with
  | some [indent, newline] => do
    let indent ← match indent with
      | some json => Indent.ofJson? json
      | none => some Options.standard.indent
    let newline ← match newline with
      | some json => json.text?
      | none => some Options.standard.newline
    return { indent, newline }
  | _ => none

def Options.ofText? (text : String) : Option Options := (Json.parse? text).bind Options.ofJson?

end SourceTree.Layout
