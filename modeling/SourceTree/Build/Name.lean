import SourceTree.Build.Leaf

/-!
New names and types.
-/
namespace SourceTree.Build

def identifierName (name : String) : Node := .identifierName (identifier name)

def qualified (left : Node) (part : String) : Node :=
  .qualifiedName left (punctuation ".") (identifierName part)

/-- The parts of a dotted text, put together from the left. -/
def dotted (join : Node → String → Node) (text : String) : Node :=
  match Text.split '.' text with
  | [] => identifierName ""
  | first :: rest => rest.foldl join (identifierName first)

/-- `System.Collections.Generic` as nested qualified names. -/
def name (text : String) : Node := dotted qualified text

def predefinedType (text : String) : Node := .predefinedType (keyword text)

def genericName (text : String) (arguments : List Node) : Node :=
  .genericName (identifier text)
    (.typeArgumentList (punctuation "<") (commaList arguments) (punctuation ">"))

def predefinedTypes : List String :=
  ["bool", "byte", "char", "decimal", "double", "float", "int", "long", "object", "sbyte",
    "short", "string", "uint", "ulong", "ushort", "void"]

/-- A predefined type where the text is one, else a name. -/
def typeName (text : String) : Node :=
  if predefinedTypes.contains text then predefinedType text else name text

end SourceTree.Build
