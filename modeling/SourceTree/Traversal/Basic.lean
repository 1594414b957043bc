import SourceTree.Traversal.Plan

/-!
A traversal is a table of hooks and the choice whether trees inside trivia are entered.
Changing a traversal gives a new one and leaves the old one as it was.
-/
namespace SourceTree

structure Traversal (σ : Type) where
  hooks : (point : Point) → Option (Hook σ point)
  /-- Walks enter the trees held by trivia. -/
  structured : Bool

namespace Traversal

variable {σ : Type}

def empty : Traversal σ := { hooks := fun _ => none, structured := true }

def withHook (traversal : Traversal σ) (point : Point) (hook : Hook σ point) : Traversal σ :=
  { traversal with
    hooks := fun other => if h : point = other then some (h ▸ hook) else traversal.hooks other }

def withoutHook (traversal : Traversal σ) (point : Point) : Traversal σ :=
  { traversal with hooks := fun other => if point = other then none else traversal.hooks other }

def withStructured (traversal : Traversal σ) (enabled : Bool) : Traversal σ :=
  { traversal with structured := enabled }

/-- Drops every hook and keeps the choice about trivia. -/
def withoutHooks (traversal : Traversal σ) : Traversal σ :=
  { traversal with hooks := fun _ => none }

def edit (traversal : Traversal σ) : Edit σ → Traversal σ
  | .hook point hook => traversal.withHook point hook
  | .unhook point => traversal.withoutHook point
  | .structured enabled => traversal.withStructured enabled
  | .clear => traversal.withoutHooks

def hasHook (traversal : Traversal σ) (point : Point) : Bool := (traversal.hooks point).isSome

/-- The points that have a hook, in the order of points. -/
def points (traversal : Traversal σ) : List Point := Point.all.filter traversal.hasHook

def hookCount (traversal : Traversal σ) : Nat := traversal.points.length

def description (traversal : Traversal σ) : String :=
  "Rewriter \x7b hooks: [" ++ String.intercalate ", " (traversal.points.map Point.title) ++
    "], visit_into_structured_trivia: " ++ (if traversal.structured then "true" else "false") ++
    " \x7d"

@[simp] theorem hooks_empty (point : Point) : (empty : Traversal σ).hooks point = none := rfl

@[simp] theorem hooks_withHook_self (traversal : Traversal σ) (point : Point)
    (hook : Hook σ point) :
    (traversal.withHook point hook).hooks point = some hook := by
  simp [withHook]

theorem hooks_withHook_other (traversal : Traversal σ) (point other : Point) (hook : Hook σ point)
    (h : point ≠ other) : (traversal.withHook point hook).hooks other = traversal.hooks other := by
  simp [withHook, h]

@[simp] theorem hooks_withoutHook_self (traversal : Traversal σ) (point : Point) :
    (traversal.withoutHook point).hooks point = none := by
  simp [withoutHook]

theorem hooks_withoutHook_other (traversal : Traversal σ) (point other : Point)
    (h : point ≠ other) : (traversal.withoutHook point).hooks other = traversal.hooks other := by
  simp [withoutHook, h]

end Traversal

end SourceTree
