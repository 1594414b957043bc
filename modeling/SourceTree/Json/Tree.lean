import SourceTree.View
import SourceTree.Json.Parse
import SourceTree.Json.Print

/-!
Trees as JSON. A node is an object with one field, named for its kind, that holds the fields
of the node. Labels and metadata are not written.

A reader has an allowance: the number of arrays and objects that may still be opened. What
stands inside one is read by the reader with the next smaller allowance. The values of
fields that no reader asks for are not looked at, so they do not count.
-/
namespace SourceTree

/-! ### Writing -/

mutual

def Node.toJson : Node → Json
  | .mk _ kind slots => .object [(kind.name, .object slots.toJson)]

def Slots.toJson : {fields : List Field} → Slots fields → List (String × Json)
  | _, .nil => []
  | field :: _, .cons slot rest => (field.name, slot.toJson) :: rest.toJson

def Slot.toJson : {shape : Shape} → Slot shape → Json
  | _, .node child => child.toJson
  | _, .optNode none => .null
  | _, .optNode (some child) => child.toJson
  | _, .token child => child.toJson
  | _, .optToken none => .null
  | _, .optToken (some child) => child.toJson
  | _, .nodes children => .array (nodesToJson children)
  | _, .tokens children => .array (tokensToJson children)
  | _, .separated ⟨elements, separators⟩ =>
    .object [("elements", .array (nodesToJson elements)),
      ("separators", .array (tokensToJson separators))]

def nodesToJson : List Node → List Json
  | [] => []
  | node :: rest => node.toJson :: nodesToJson rest

def Token.toJson : Token → Json
  | .mk _ kind text leading trailing =>
    .object [("kind", .string kind.name), ("text", .string text),
      ("leading", .array (triviaToJson leading)), ("trailing", .array (triviaToJson trailing))]

def tokensToJson : List Token → List Json
  | [] => []
  | token :: rest => token.toJson :: tokensToJson rest

/-- The tree of a piece of trivia is written only where there is one. -/
def Trivia.toJson : Trivia → Json
  | .mk _ kind text none => .object [("kind", .string kind.name), ("text", .string text)]
  | .mk _ kind text (some inner) =>
    .object [("kind", .string kind.name), ("text", .string text), ("structure", inner.toJson)]

def triviaToJson : List Trivia → List Json
  | [] => []
  | trivia :: rest => trivia.toJson :: triviaToJson rest

end

/-! ### Reading -/

namespace Json

/-- The values of named fields, in the order of the names. In an object a name that does not
occur has no value and none may occur twice; other names are ignored. An array gives the
values by position and may leave off only the last `optional` ones. -/
def record? (names : List String) (optional : Nat) : Json → Option (List (Option Json))
  | .object fields =>
    if names.any fun name => 1 < (fields.filter fun field => field.1 == name).length then none
    else some (names.map fun name => fields.lookup name)
  | .array items =>
    if items.length ≤ names.length && names.length ≤ items.length + optional then
      some (items.map some ++ List.replicate (names.length - items.length) none)
    else none
  | _ => none

def items? : Json → Option (List Json)
  | .array items => some items
  | _ => none

def text? : Json → Option String
  | .string text => some text
  | _ => none

/-- A name out of a fixed choice, without any content: the string itself. -/
def choice? : Json → Option String
  | .string name => some name
  | _ => none

/-- The same, also written as an object that gives the name the value `null`. -/
def wrappedChoice? : Json → Option String
  | .object [(name, .null)] => some name
  | json => choice? json

/-- Every item read, or nothing. -/
def readAll {α : Type} (read : Json → Option α) : List Json → Option (List α)
  | [] => some []
  | item :: rest =>
    match read item, readAll read rest with
    | some value, some values => some (value :: values)
    | _, _ => none

/-- An absent value and `null` are nothing; anything else is read. -/
def readOpt {α : Type} (read : Json → Option α) : Option Json → Option (Option α)
  | none => some none
  | some .null => some none
  | some json => (read json).map some

/-- The readers with a given allowance. -/
structure Reader where
  node : Json → Option Node
  /-- The fields of a node of a known kind. -/
  body : Kind → Json → Option Node
  token : Json → Option Token
  trivia : Json → Option Trivia
  nodes : Json → Option (List Node)
  tokens : Json → Option (List Token)
  trivias : Json → Option (List Trivia)
  separated : Json → Option (Separated Node Token)
  choice : Json → Option String

namespace Reader

def slot (reader : Reader) : (shape : Shape) → Option Json → Option (Slot shape)
  | .node, value => (value.bind reader.node).map .node
  | .optNode, value => (readOpt reader.node value).map .optNode
  | .token, value => (value.bind reader.token).map .token
  | .optToken, value => (readOpt reader.token value).map .optToken
  | .nodes, value => (value.bind reader.nodes).map .nodes
  | .tokens, value => (value.bind reader.tokens).map .tokens
  | .separated, value => (value.bind reader.separated).map .separated

def slots (reader : Reader) : (fields : List Field) → List (Option Json) → Option (Slots fields)
  | [], _ => some .nil
  | _ :: _, [] => none
  | field :: fields, value :: values =>
    match reader.slot field.shape value, reader.slots fields values with
    | some slot, some rest => some (.cons slot rest)
    | _, _ => none

/-- Nothing may be opened. -/
def closed : Reader where
  node _ := none
  body _ _ := none
  token _ := none
  trivia _ := none
  nodes _ := none
  tokens _ := none
  trivias _ := none
  separated _ := none
  choice := choice?

/-- Each of these opens one array or object and reads its content with `inner`. -/
def opening (inner : Reader) : Reader where
  node
    | .object [(name, body)] => (Kind.ofName? name).bind fun kind => inner.body kind body
    | _ => none
  body kind json := do
    let values ← json.record? (kind.fields.map Field.name) 0
    let slots ← inner.slots kind.fields values
    return .mk {} kind slots
  token json :=
    match json.record? ["kind", "text", "leading", "trailing"] 0 with
    | some [some kind, some text, some leading, some trailing] => do
      let kind ← (inner.choice kind).bind TokenKind.ofName?
      let text ← text.text?
      let leading ← inner.trivias leading
      let trailing ← inner.trivias trailing
      return .mk none kind text leading trailing
    | _ => none
  trivia json :=
    match json.record? ["kind", "text", "structure"] 1 with
    | some [some kind, some text, structure?] => do
      let kind ← (inner.choice kind).bind TriviaKind.ofName?
      let text ← text.text?
      let tree ← readOpt inner.node structure?
      return .mk none kind text tree
    | _ => none
  nodes json := json.items?.bind (readAll inner.node)
  tokens json := json.items?.bind (readAll inner.token)
  trivias json := json.items?.bind (readAll inner.trivia)
  separated json :=
    match json.record? ["elements", "separators"] 0 with
    | some [some elements, some separators] => do
      let elements ← inner.nodes elements
      let separators ← inner.tokens separators
      return ⟨elements, separators⟩
    | _ => none
  choice := wrappedChoice?

end Reader

def reader : Nat → Reader
  | 0 => .closed
  | allowance + 1 => .opening (reader allowance)

/-- At most 127 arrays and objects may be nested. -/
def allowance : Nat := 127

end Json

def Node.ofJson? (json : Json) : Option Node := (Json.reader Json.allowance).node json

/-- The tree that a JSON text describes. -/
def Node.ofText? (text : String) : Option Node := (Json.parse? text).bind Node.ofJson?

end SourceTree
