import SourceTree.Form
import SourceTree.Text.Split

/-!
New tokens, trivia and lists of them. Tokens made here have no trivia, so trees built from
them print without any space; laying them out is the business of `SourceTree.Layout`.
-/
namespace SourceTree.Build

def identifier (text : String) : Token := .ofText .identifier text

def keyword (text : String) : Token := .ofText .keyword text

def punctuation (text : String) : Token := .ofText .punctuation text

def operator (text : String) : Token := .ofText .operator text

def endOfFile : Token := .ofText .endOfFile ""

def whitespace (text : String) : Trivia := .ofText .whitespace text

def endOfLine (text : String) : Trivia := .ofText .endOfLine text

def singleLineComment (text : String) : Trivia := .ofText .singleLineComment ("// " ++ text)

def modifiers (keywords : List String) : List Token := keywords.map keyword

/-- Elements kept apart by punctuation, without a trailing one. -/
def separatedBy (separator : String) (elements : List Node) : Separated Node Token :=
  .joined elements (punctuation separator)

def commaList (elements : List Node) : Separated Node Token := separatedBy "," elements

end SourceTree.Build
