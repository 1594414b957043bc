import SourceTree.Command.Argument
import SourceTree.Command.Run

/-!
The command line: reads a tree as JSON, runs the passes asked for and writes the result.
-/
namespace SourceTree.Command

def usage : List String := [
  "Rewrite a JSON-serialized syntax tree and print the result",
  "",
  "Usage: syntax-rewrite [OPTIONS] [INPUT]",
  "",
  "Arguments:",
  "  [INPUT]  Input tree as JSON; `-` reads stdin [default: -]",
  "",
  "Options:",
  "  -o, --output <OUTPUT>              Write the result here instead of stdout",
  "      --rename-token <OLD=NEW>       Rename identifier tokens spelled OLD to NEW (repeatable)",
  "      --rename-method <OLD=NEW>      Rename method declarations named OLD to NEW (repeatable)",
  "      --normalize-usings             Sort and deduplicate using directives",
  "      --emit <EMIT>                  verbatim, formatted or json [default: formatted]",
  "      --indent <INDENT>              spaces or tabs [default: spaces]",
  "      --indent-width <INDENT_WIDTH>  Spaces per level [default: 4]",
  "      --newline <NEWLINE>            lf or crlf [default: lf]",
  "      --log-level <LOG_LEVEL>        Log level filter",
  "      --log-file <LOG_FILE>          Also append debug logs to this file",
  "      --no-color                     Disable ANSI colors in log output",
  "  -h, --help                         Print help"]

def readInput (path : String) : IO (Option ByteArray) := do
  try
    if path = "-" then return some (← (← IO.getStdin).readBinToEnd)
    else return some (← IO.FS.readBinFile path)
  catch _ => return none

/-- Answers whether the text could be written. -/
def writeOutput (path : Option String) (text : String) : IO Bool := do
  try
    match path with
    | some path => IO.FS.writeFile path text
    | none => IO.print text
    return true
  catch _ => return false

def fail (code : UInt32) (message : String) : IO UInt32 := do
  IO.eprintln ("error: " ++ message)
  return code

end SourceTree.Command

open SourceTree.Command in
def main (arguments : List String) : IO UInt32 := do
  match Options.ofArguments arguments with
  | .error .helpWanted =>
    usage.forM IO.println
    return 0
  | .error error => fail 2 error.message
  | .ok options =>
    match options.run (← readInput options.input) with
    | .error error => fail 1 error.message
    | .ok text =>
      if ← writeOutput options.output text then return 0
      else fail 1 (RunError.unwritable (options.output.getD "stdout")).message
