import SourceTree.Kind
import SourceTree.Separated
import SourceTree.Metadata

/-!
Trees. A node has a kind and the contents of that kind's fields; the type of `Slots` makes
sure that each field holds what its shape allows. Tokens carry the trivia around them, and
a piece of trivia may itself hold a tree.

Two copies of one text are different objects. Objects are told apart by labels: a label
names one object, and an object that was just made has none, so it is the same as no other,
not even as itself in a second place. Every operation that makes an object leaves it
unlabelled.
-/
namespace SourceTree

/-- What a node carries besides its syntax. -/
structure Info where
  label : Option Nat := none
  metadata : Metadata := []
  deriving DecidableEq, Repr

mutual

inductive Node where
  | mk (info : Info) (kind : Kind) (slots : Slots kind.fields)

inductive Slots : List Field → Type where
  | nil : Slots []
  | cons {field : Field} {fields : List Field} (slot : Slot field.shape) (rest : Slots fields) :
      Slots (field :: fields)

inductive Slot : Shape → Type where
  | node (child : Node) : Slot .node
  | optNode (child : Option Node) : Slot .optNode
  | token (child : Token) : Slot .token
  | optToken (child : Option Token) : Slot .optToken
  | nodes (children : List Node) : Slot .nodes
  | tokens (children : List Token) : Slot .tokens
  | separated (children : Separated Node Token) : Slot .separated

inductive Token where
  | mk (label : Option Nat) (kind : TokenKind) (text : String) (leading trailing : List Trivia)

inductive Trivia where
  | mk (label : Option Nat) (kind : TriviaKind) (text : String) (inner : Option Node)

end

/-- Two labels name one object. An absent label names none. -/
def sameLabel : Option Nat → Option Nat → Bool
  | some i, some j => i == j
  | _, _ => false

/-- Two lists hold the same objects in the same order. -/
def sameAll {α : Type} (same : α → α → Bool) : List α → List α → Bool
  | [], [] => true
  | a :: as, b :: bs => same a b && sameAll same as bs
  | _, _ => false

namespace Trivia

def label : Trivia → Option Nat
  | .mk label _ _ _ => label

def kind : Trivia → TriviaKind
  | .mk _ kind _ _ => kind

def text : Trivia → String
  | .mk _ _ text _ => text

/-- The tree held by a structured piece of trivia. -/
def inner : Trivia → Option Node
  | .mk _ _ _ inner => inner

def ofText (kind : TriviaKind) (text : String) : Trivia := .mk none kind text none

def ofTree (kind : TriviaKind) (inner : Node) : Trivia := .mk none kind "" (some inner)

def withText (trivia : Trivia) (text : String) : Trivia :=
  .mk none trivia.kind text trivia.inner

def withInner (trivia : Trivia) (inner : Node) : Trivia :=
  .mk none trivia.kind trivia.text (some inner)

def copy (trivia : Trivia) : Trivia := .mk none trivia.kind trivia.text trivia.inner

def same (a b : Trivia) : Bool := sameLabel a.label b.label

def isComment (trivia : Trivia) : Bool :=
  match trivia.kind with
  | .singleLineComment | .multiLineComment | .documentationComment => true
  | _ => false

def isDocumentation (trivia : Trivia) : Bool := trivia.kind == .documentationComment

end Trivia

namespace Token

def label : Token → Option Nat
  | .mk label _ _ _ _ => label

def kind : Token → TokenKind
  | .mk _ kind _ _ _ => kind

def text : Token → String
  | .mk _ _ text _ _ => text

def leading : Token → List Trivia
  | .mk _ _ _ leading _ => leading

def trailing : Token → List Trivia
  | .mk _ _ _ _ trailing => trailing

/-- A token without trivia. -/
def ofText (kind : TokenKind) (text : String) : Token := .mk none kind text [] []

def withText (token : Token) (text : String) : Token :=
  .mk none token.kind text token.leading token.trailing

def withLeading (token : Token) (leading : List Trivia) : Token :=
  .mk none token.kind token.text leading token.trailing

def withTrailing (token : Token) (trailing : List Trivia) : Token :=
  .mk none token.kind token.text token.leading trailing

def copy (token : Token) : Token :=
  .mk none token.kind token.text token.leading token.trailing

def same (a b : Token) : Bool := sameLabel a.label b.label

def isIdentifier (token : Token) : Bool := token.kind == .identifier

@[simp] theorem text_withText (token : Token) (text : String) :
    (token.withText text).text = text := rfl

@[simp] theorem leading_withLeading (token : Token) (leading : List Trivia) :
    (token.withLeading leading).leading = leading := rfl

@[simp] theorem trailing_withTrailing (token : Token) (trailing : List Trivia) :
    (token.withTrailing trailing).trailing = trailing := rfl

end Token

namespace Slot

def toNode : Slot .node → Node
  | .node child => child

def toNode? : Slot .optNode → Option Node
  | .optNode child => child

def toToken : Slot .token → Token
  | .token child => child

def toToken? : Slot .optToken → Option Token
  | .optToken child => child

def toNodes : Slot .nodes → List Node
  | .nodes children => children

end Slot

namespace Slots

/-- Fills every field by a function of the field; the first failure is the result. -/
def build {ε : Type} (fill : (field : Field) → Except ε (Slot field.shape)) :
    (fields : List Field) → Except ε (Slots fields)
  | [] => .ok .nil
  | field :: fields =>
    match fill field with
    | .error e => .error e
    | .ok slot =>
      match build fill fields with
      | .error e => .error e
      | .ok rest => .ok (.cons slot rest)

/-- The content of one field, if there is such a field. -/
def get? (target : Field) : {fields : List Field} → Slots fields → Option (Slot target.shape)
  | _, .nil => none
  | field :: _, .cons slot rest =>
    if h : field = target then some (h ▸ slot) else get? target rest

/-- Puts new content into one field. -/
def set (target : Field) (content : Slot target.shape) :
    {fields : List Field} → Slots fields → Slots fields
  | _, .nil => .nil
  | field :: _, .cons slot rest =>
    if h : target = field then .cons (h ▸ content) rest else .cons slot (set target content rest)

end Slots

namespace Node

def info : Node → Info
  | .mk info _ _ => info

def label (node : Node) : Option Nat := node.info.label

def metadata (node : Node) : Metadata := node.info.metadata

def kind : Node → Kind
  | .mk _ kind _ => kind

def slots : (node : Node) → Slots node.kind.fields
  | .mk _ _ slots => slots

/-- A node of the same kind and metadata with other contents. -/
def rebuild : (node : Node) → Slots node.kind.fields → Node
  | .mk info kind _, slots => .mk { metadata := info.metadata } kind slots

def withMetadata : Node → Metadata → Node
  | .mk _ kind slots, metadata => .mk { metadata } kind slots

/-- Sets one entry of the metadata and keeps the others. -/
def annotate (node : Node) (key : String) (value : Note) : Node :=
  node.withMetadata (node.metadata.insert key value)

def copy (node : Node) : Node := node.withMetadata node.metadata

def get? (node : Node) (target : Field) : Option (Slot target.shape) := node.slots.get? target

/-- Puts new content into the field `target`; a node without that field is only copied. -/
def set (node : Node) (target : Field) (content : Slot target.shape) : Node :=
  node.rebuild (node.slots.set target content)

def same (a b : Node) : Bool := sameLabel a.label b.label

@[simp] theorem kind_rebuild (node : Node) (slots : Slots node.kind.fields) :
    (node.rebuild slots).kind = node.kind := by cases node; rfl

@[simp] theorem metadata_rebuild (node : Node) (slots : Slots node.kind.fields) :
    (node.rebuild slots).metadata = node.metadata := by cases node; rfl

@[simp] theorem label_rebuild (node : Node) (slots : Slots node.kind.fields) :
    (node.rebuild slots).label = none := by cases node; rfl

@[simp] theorem metadata_withMetadata (node : Node) (metadata : Metadata) :
    (node.withMetadata metadata).metadata = metadata := by cases node; rfl

end Node

/-- A field holds the same objects in both. -/
def Slot.same : {shape : Shape} → Slot shape → Slot shape → Bool
  | _, .node a, .node b => a.same b
  | _, .optNode none, .optNode none => true
  | _, .optNode (some a), .optNode (some b) => a.same b
  | _, .token a, .token b => a.same b
  | _, .optToken none, .optToken none => true
  | _, .optToken (some a), .optToken (some b) => a.same b
  | _, .nodes as, .nodes bs => sameAll Node.same as bs
  | _, .tokens as, .tokens bs => sameAll Token.same as bs
  | _, .separated a, .separated b =>
    sameAll Node.same a.elements b.elements && sameAll Token.same a.separators b.separators
  | _, _, _ => false

def Slots.same : {fields : List Field} → Slots fields → Slots fields → Bool
  | _, .nil, .nil => true
  | _, .cons slot rest, .cons slot' rest' => slot.same slot' && rest.same rest'

end SourceTree
