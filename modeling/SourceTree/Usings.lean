import SourceTree.Name
import SourceTree.Build.Declaration
import SourceTree.Traversal.Run

/-!
Using directives. Compilation units and namespaces hold a list of them. A list is in order
when plain directives stand before static ones, `System` and what lies below it before the
rest, and names in the order of their characters.
-/
namespace SourceTree

/-- What tells one using directive from another. -/
structure UsingKey where
  static : Bool
  name : String
  deriving DecidableEq, Repr

namespace UsingKey

def isSystem (name : String) : Bool :=
  name == "System" || "System.".toList.isPrefixOf name.toList

def less (a b : UsingKey) : Bool :=
  if a.static != b.static then b.static
  else if isSystem a.name != isSystem b.name then isSystem a.name
  else decide (a.name < b.name)

end UsingKey

namespace Node

def usingKey? (node : Node) : Option UsingKey :=
  if node.kind = .usingDirective then
    match node.get? ⟨"static_keyword", .optToken⟩, node.get? ⟨"name", .node⟩ with
    | some keyword, some name => some ⟨keyword.toToken?.isSome, name.toNode.nameText⟩
    | _, _ => none
  else none

/-- The using directives of a compilation unit or namespace. -/
def usings? (node : Node) : Option (List Node) :=
  if node.kind = .compilationUnit ∨ node.kind = .namespaceDeclaration then
    (node.get? ⟨"usings", .nodes⟩).map Slot.toNodes
  else none

def withUsings (node : Node) (usings : List Node) : Node :=
  node.set ⟨"usings", .nodes⟩ (.nodes usings)

end Node

namespace Usings

/-- Appends a directive, also if there is one like it. -/
def addDirective (directive : Node) (usings : List Node) : List Node := usings ++ [directive]

/-- Appends a plain directive unless there is one for that name. -/
def add (name : String) (usings : List Node) : List Node :=
  if usings.any fun entry => entry.usingKey? == some ⟨false, name⟩ then usings
  else addDirective (Build.usingDirective name) usings

/-- Drops every directive for a name, plain or static. -/
def remove (name : String) (usings : List Node) : List Node :=
  usings.filter fun entry =>
    match entry.usingKey? with
    | some key => key.name != name
    | none => true

/-- Only two directives can be out of order; any other node is level with everything. -/
def less (a b : Node) : Bool :=
  match a.usingKey?, b.usingKey? with
  | some a, some b => a.less b
  | _, _ => false

/-- Lets `x` pass the greater entries at the front of a reversed list. -/
def insertBack (x : Node) : List Node → List Node
  | [] => [x]
  | y :: rest => if less x y then y :: insertBack x rest else x :: y :: rest

/-- Takes the entries one by one and moves each back past the greater ones directly before
it. -/
def sort (usings : List Node) : List Node :=
  (usings.foldl (fun sorted x => insertBack x sorted) []).reverse

/-- A way to sort usings, which may give up where `less` is no order of the entries. -/
abbrev Sorter : Type := List Node → Option (List Node)

/-- One by one as above, which never gives up. -/
def insertion : Sorter := fun usings => some (sort usings)

/-- Keeps the first directive for each key, and every other node. -/
def dedupeFrom (seen : List UsingKey) : List Node → List Node
  | [] => []
  | entry :: rest =>
    match entry.usingKey? with
    | none => entry :: dedupeFrom seen rest
    | some key =>
      if key ∈ seen then dedupeFrom seen rest else entry :: dedupeFrom (key :: seen) rest

def dedupe (usings : List Node) : List Node := dedupeFrom [] usings

def normalize (usings : List Node) : List Node := sort (dedupe usings)

end Usings

/-- Changes the usings of a node that has any; the result is a new node. -/
def Node.mapUsings (node : Node) (f : List Node → List Node) : Node :=
  match node.usings? with
  | some usings => node.withUsings (f usings)
  | none => node

/-- The same for a change that may give up. -/
def Node.mapUsings? (node : Node) (f : List Node → Option (List Node)) : Option Node :=
  match node.usings? with
  | some usings => (f usings).map node.withUsings
  | none => some node

variable {σ : Type}

/-- Walks a node, drops repeated usings and sorts the rest. -/
def Usings.normalizeHook (sorter : Usings.Sorter) (node : Node) : Plan σ (Option Node) := do
  match ← Plan.walk .node node with
  | none => return none
  | some walked =>
    match walked.mapUsings? fun usings => sorter (Usings.dedupe usings) with
    | some result => return some result
    | none => Plan.fail .unsortable

/-- Puts the usings of every compilation unit and namespace in order, from the inside out. -/
def usingNormalizerBy (sorter : Usings.Sorter) : Traversal σ :=
  let hook := Usings.normalizeHook sorter
  (Traversal.empty.withHook (.node .compilationUnit) hook).withHook (.node .namespaceDeclaration)
    hook

def usingNormalizer : Traversal σ := usingNormalizerBy Usings.insertion

end SourceTree
