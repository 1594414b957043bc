import SourceTree.Command.Options

/-!
Values of options: how each kind of value is read from its text, and what can be wrong with
an argument.
-/
namespace SourceTree.Command

inductive UsageError where
  | missingValue
  | emptyPath
  | unknownChoice
  | badRenaming (text : String)
  | emptyNumber
  | badDigit
  | numberTooLarge
  | givenTwice
  | unknownArgument
  | needlessValue
  /-- Not a mistake: help was asked for, and nothing else is done. -/
  | helpWanted
  deriving DecidableEq, Repr

def UsageError.message : UsageError → String
  | .missingValue => "a value is required"
  | .emptyPath => "a path is required"
  | .unknownChoice => "not one of the possible values"
  | .badRenaming text => "expected OLD=NEW, got `" ++ text ++ "`"
  | .emptyNumber => "cannot parse integer from empty string"
  | .badDigit => "invalid digit found in string"
  | .numberTooLarge => "number too large to fit in target type"
  | .givenTwice => "the argument cannot be used multiple times"
  | .unknownArgument => "unexpected argument"
  | .needlessValue => "the argument takes no value"
  | .helpWanted => "help"

def readPath (text : String) : Except UsageError String :=
  if text.isEmpty then .error .emptyPath else .ok text

/-- The text before the first `separator` and the text behind it. -/
def cutAt (separator : Char) : List Char → Option (List Char × List Char)
  | [] => none
  | c :: rest =>
    if c = separator then some ([], rest)
    else (cutAt separator rest).map fun (before, behind) => (c :: before, behind)

/-- Two names with a `=` between them; the second may hold more of them. -/
def readRenaming (text : String) : Except UsageError Renaming :=
  match cutAt '=' text.toList with
  | some (old, new) =>
    if old.isEmpty || new.isEmpty then .error (.badRenaming text)
    else .ok ⟨String.ofList old, String.ofList new⟩
  | none => .error (.badRenaming text)

def readEmit : String → Except UsageError Emit
  | "verbatim" => .ok .verbatim
  | "formatted" => .ok .formatted
  | "json" => .ok .json
  | _ => .error .unknownChoice

def readIndent : String → Except UsageError IndentStyle
  | "spaces" => .ok .spaces
  | "tabs" => .ok .tabs
  | _ => .error .unknownChoice

def readNewline : String → Except UsageError Newline
  | "lf" => .ok .lf
  | "crlf" => .ok .crlf
  | _ => .error .unknownChoice

/-- Digits from the left, onto a number already read; the first that cannot be taken on says
what is wrong. Numbers are below 2^64. -/
def readDigits (value : Nat) : List Char → Except UsageError Nat
  | [] => .ok value
  | c :: rest =>
    if c.isDigit then
      let next := 10 * value + (c.toNat - '0'.toNat)
      if next < 2 ^ 64 then readDigits next rest else .error .numberTooLarge
    else .error .badDigit

/-- Decimal digits, with or without a plus sign before them. -/
def readNumber (text : String) : Except UsageError Nat :=
  match text.toList with
  | [] => .error .emptyNumber
  | ['+'] => .error .badDigit
  | '+' :: digits => readDigits 0 digits
  | digits => readDigits 0 digits

end SourceTree.Command
