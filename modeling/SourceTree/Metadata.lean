/-!
Notes that callers leave on nodes: a finite map from keys to texts, truth values or
numbers. Traversals carry them along; printing, comparing and JSON ignore them.
-/
namespace SourceTree

inductive Note where
  | text (value : String)
  | flag (value : Bool)
  | number (value : Nat)
  deriving DecidableEq, Repr

namespace Note

def text? : Note → Option String
  | .text value => some value
  | _ => none

def flag? : Note → Option Bool
  | .flag value => some value
  | _ => none

def number? : Note → Option Nat
  | .number value => some value
  | _ => none

end Note

/-- Each key occurs once, at the place where it was first set. -/
abbrev Metadata := List (String × Note)

namespace Metadata

def get? (map : Metadata) (key : String) : Option Note := List.lookup key map

def insert : Metadata → String → Note → Metadata
  | [], key, value => [(key, value)]
  | (k, v) :: rest, key, value =>
    if k = key then (key, value) :: rest else (k, v) :: insert rest key value

def only (key : String) (value : Note) : Metadata := [(key, value)]

theorem get?_insert_self (map : Metadata) (key : String) (value : Note) :
    get? (insert map key value) key = some value := by
  induction map with
  | nil => simp [insert, get?]
  | cons entry rest ih =>
    obtain ⟨k, v⟩ := entry
    by_cases h : k = key
    · simp [insert, get?, h]
    · have : (key == k) = false := by simpa using Ne.symm h
      simpa [insert, get?, h, List.lookup_cons, this] using ih

end Metadata

end SourceTree
