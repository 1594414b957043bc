/-!
Lists whose elements are kept apart by separators, such as `a, b, c`. Elements and
separators are stored side by side: the separator with index `i` stands after the element
with index `i`. Nothing forces the two lengths to fit; `Fits` says when they do.
-/
namespace SourceTree

structure Separated (α β : Type) where
  elements : List α := []
  separators : List β := []
  deriving DecidableEq, Repr

namespace Separated

variable {α β : Type}

def empty : Separated α β := {}

def length (list : Separated α β) : Nat := list.elements.length

def isEmpty (list : Separated α β) : Bool := list.elements.isEmpty

def get? (list : Separated α β) (i : Nat) : Option α := list.elements[i]?

/-- The last element has a separator of its own behind it. -/
def hasTrailing (list : Separated α β) : Bool :=
  !list.elements.isEmpty && decide (list.elements.length ≤ list.separators.length)

/-- One separator fewer than elements, or as many; none when there is no element. -/
def Fits (list : Separated α β) : Prop :=
  (list.elements = [] ∧ list.separators = []) ∨
    (list.elements ≠ [] ∧
      (list.separators.length + 1 = list.elements.length ∨
        list.separators.length = list.elements.length))

/-- Appends an element, with `separator` in front of it where one is due. -/
def push (list : Separated α β) (element : α) (separator : β) : Separated α β :=
  { elements := list.elements ++ [element]
    separators :=
      if list.elements.isEmpty || list.hasTrailing then list.separators
      else list.separators ++ [separator] }

/-- Elements joined by copies of one separator, without a trailing one. -/
def joined (elements : List α) (separator : β) : Separated α β :=
  { elements, separators := List.replicate (elements.length - 1) separator }

/-- Document order: each element, then the separator with its index. Surplus separators
stand behind no element and do not appear. -/
def interleave : List α → List β → List (α ⊕ β)
  | [], _ => []
  | a :: as, [] => .inl a :: interleave as []
  | a :: as, b :: bs => .inl a :: .inr b :: interleave as bs

/-- The same for two lists of one type. -/
def weave : List α → List α → List α
  | [], _ => []
  | a :: as, [] => a :: weave as []
  | a :: as, b :: bs => a :: b :: weave as bs

def inOrder (list : Separated α β) : List (α ⊕ β) :=
  interleave list.elements list.separators

@[simp] theorem length_empty : (empty : Separated α β).length = 0 := rfl

@[simp] theorem elements_push (list : Separated α β) (a : α) (b : β) :
    (list.push a b).elements = list.elements ++ [a] := rfl

@[simp] theorem elements_joined (as : List α) (b : β) : (joined as b).elements = as := rfl

end Separated

end SourceTree
