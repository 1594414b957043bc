import SourceTree.Build.Leaf

/-!
New documentation comments. A comment is a tree of XML elements whose tokens carry the
`///` that opens each line.
-/
namespace SourceTree.Build

/-- The opening of a line; an empty line has no space behind it. -/
def exterior (emptyLine : Bool) : Trivia :=
  .ofText .documentationExterior (if emptyLine then "///" else "/// ")

def xmlNewLine : Token := .ofText .xmlNewLine "\n"

def xmlTextLine (line : String) : Token :=
  (Token.ofText .xmlText line).withLeading [exterior line.isEmpty]

def startTag (name : String) (attributes : List Token) : Node :=
  .xmlElementStartTag ((punctuation "<").withLeading [exterior false]) (.ofText .xmlName name)
    attributes (punctuation ">")

def endTag (name : String) (ownLine : Bool) : Node :=
  .xmlElementEndTag
    (if ownLine then (punctuation "</").withLeading [exterior false] else punctuation "</")
    (.ofText .xmlName name) (punctuation ">")

/-- The tags on lines of their own around the text, one `///` line for each of its lines. -/
def xmlBlockElement (name text : String) : Node :=
  .xmlElement (startTag name [])
    [.xmlText (xmlNewLine :: (Text.lines text).flatMap fun line => [xmlTextLine line, xmlNewLine])]
    (endTag name true)

/-- `<name key="value">text</name>` -/
def xmlInlineElement (name : String) (entry : Option (String × String)) (text : String) : Node :=
  .xmlElement
    (startTag name (entry.toList.map fun (key, value) =>
      (Token.ofText .xmlText (key ++ "=\"" ++ value ++ "\"")).withLeading [whitespace " "]))
    [.xmlText [.ofText .xmlText text]] (endTag name false)

/-- A documentation comment of the given elements, each of them followed by a line end. -/
def documentationComment (elements : List Node) : Trivia :=
  .ofTree .documentationComment
    (.documentationComment (elements.flatMap fun element => [element, .xmlText [xmlNewLine]])
      (.ofText .endOfDocumentationComment ""))

def summaryComment (summary : String) : Trivia :=
  documentationComment [xmlBlockElement "summary" summary]

end SourceTree.Build
