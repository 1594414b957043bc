import SourceTree.Command.Value

/-!
Arguments. They are taken from the left. The value of an option that stands in an argument
of its own, like that of a positional argument, is only looked at when the next argument
that is known comes, or at the end; so of two mistakes an unknown argument can win over a
bad value before it.
-/
namespace SourceTree.Command

/-- Arguments that carry a value. -/
inductive Setting where
  | input | output | renameToken | renameMethod | emit | indent | indentWidth | newline
  | logLevel | logFile
  deriving DecidableEq, Repr

inductive Flag where
  | normalizeUsings | noColor | help
  deriving DecidableEq, Repr

/-- What the name of an option stands for. -/
inductive Key where
  | setting (setting : Setting)
  | flag (flag : Flag)
  deriving DecidableEq, Repr

def Setting.isRepeatable : Setting → Bool
  | .renameToken => true
  | .renameMethod => true
  | _ => false

def Key.ofLong? : String → Option Key
  | "output" => some (.setting .output)
  | "rename-token" => some (.setting .renameToken)
  | "rename-method" => some (.setting .renameMethod)
  | "normalize-usings" => some (.flag .normalizeUsings)
  | "emit" => some (.setting .emit)
  | "indent" => some (.setting .indent)
  | "indent-width" => some (.setting .indentWidth)
  | "newline" => some (.setting .newline)
  | "log-level" => some (.setting .logLevel)
  | "log-file" => some (.setting .logFile)
  | "no-color" => some (.flag .noColor)
  | "help" => some (.flag .help)
  | _ => none

def Key.ofShort? : Char → Option Key
  | 'o' => some (.setting .output)
  | 'h' => some (.flag .help)
  | _ => none

/-- Reads the value of a setting. The log settings change nothing. -/
def Options.put (options : Options) (text : String) : Setting → Except UsageError Options
  | .input => (readPath text).map fun path => { options with input := path }
  | .output => (readPath text).map fun path => { options with output := some path }
  | .renameToken => (readRenaming text).map fun pair =>
      { options with tokenRenamings := options.tokenRenamings ++ [pair] }
  | .renameMethod => (readRenaming text).map fun pair =>
      { options with methodRenamings := options.methodRenamings ++ [pair] }
  | .emit => (readEmit text).map fun emit => { options with emit }
  | .indent => (readIndent text).map fun indent => { options with indent }
  | .indentWidth => (readNumber text).map fun indentWidth => { options with indentWidth }
  | .newline => (readNewline text).map fun newline => { options with newline }
  | .logLevel => .ok options
  | .logFile => (readPath text).map fun _ => options

/-- The shapes of an argument. -/
inductive Argument where
  /-- Behind it every argument is positional. -/
  | divider
  | long (name : String) (value : Option String)
  | short (letter : Char) (rest : String)
  | plain (text : String)
  deriving DecidableEq, Repr

def Argument.ofText (text : String) : Argument :=
  match text.toList with
  | ['-', '-'] => .divider
  | '-' :: '-' :: rest =>
    match cutAt '=' rest with
    | some (name, value) => .long (String.ofList name) (some (String.ofList value))
    | none => .long (String.ofList rest) none
  | '-' :: letter :: rest => .short letter (String.ofList rest)
  | _ => .plain text

/-- A value that starts with `=` stands behind the sign; no text at all is no value. -/
def attached? (rest : String) : Option String :=
  match rest.toList with
  | [] => none
  | '=' :: value => some (String.ofList value)
  | _ => some rest

structure Progress where
  options : Options := {}
  given : List Key := []
  /-- A setting whose value is not looked at yet, or still to come. -/
  pending : Option (Setting × Option String) := none
  positionalOnly : Bool := false
  deriving DecidableEq, Repr

namespace Progress

/-- Notes that a key was given; only some may be given again. -/
def note (progress : Progress) (key : Key) (repeatable : Bool) : Except UsageError Progress :=
  if key ∈ progress.given && !repeatable then .error .givenTwice
  else .ok { progress with given := key :: progress.given }

def put (progress : Progress) (setting : Setting) (text : String) : Except UsageError Progress := do
  let progress ← progress.note (.setting setting) setting.isRepeatable
  let options ← progress.options.put text setting
  return { progress with options }

/-- Looks at the value that was left for later. -/
def settle (progress : Progress) : Except UsageError Progress :=
  match progress.pending with
  | none => .ok progress
  | some (_, none) => .error .missingValue
  | some (setting, some text) => { progress with pending := none }.put setting text

/-- An option that takes a value, which may be attached to it. -/
def takeSetting (progress : Progress) (setting : Setting) (value : Option String) :
    Except UsageError Progress := do
  let progress ← progress.settle
  match value with
  | some text => progress.put setting text
  | none => return { progress with pending := some (setting, none) }

def takeFlag (progress : Progress) (flag : Flag) : Except UsageError Progress := do
  let progress ← progress.settle
  match flag with
  | .help => .error .helpWanted
  | .noColor => progress.note (.flag .noColor) false
  | .normalizeUsings =>
    let progress ← progress.note (.flag .normalizeUsings) false
    return { progress with options := { progress.options with normalizeUsings := true } }

/-- There is one positional argument, the input. -/
def takePositional (progress : Progress) (text : String) : Except UsageError Progress :=
  if .setting .input ∈ progress.given ||
      progress.pending.any fun (setting, _) => setting = .input then
    .error .unknownArgument
  else do
    let progress ← progress.settle
    return { progress with pending := some (.input, some text) }

/-- An argument that is no option: the value that is waited for, or positional. -/
def takePlain (progress : Progress) (text : String) : Except UsageError Progress :=
  match progress.pending with
  | some (setting, none) => .ok { progress with pending := some (setting, some text) }
  | _ => progress.takePositional text

def take (progress : Progress) (text : String) : Except UsageError Progress :=
  if progress.positionalOnly then progress.takePositional text
  else
    match Argument.ofText text with
    | .divider => .ok { progress with positionalOnly := true }
    | .long name value =>
      match Key.ofLong? name, value with
      | none, _ => .error .unknownArgument
      | some (.setting setting), value => progress.takeSetting setting value
      | some (.flag flag), none => progress.takeFlag flag
      | some (.flag _), some _ => .error .needlessValue
    | .short letter rest =>
      match Key.ofShort? letter with
      | none => .error .unknownArgument
      | some (.setting setting) => progress.takeSetting setting (attached? rest)
      | some (.flag flag) => progress.takeFlag flag
    | .plain text => progress.takePlain text

end Progress

/-- Reads a whole command line, without the name of the program. -/
def Options.ofArguments (arguments : List String) : Except UsageError Options := do
  let progress ← arguments.foldlM Progress.take {}
  let progress ← progress.settle
  return progress.options

end SourceTree.Command
