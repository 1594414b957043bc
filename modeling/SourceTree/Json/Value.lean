/-!
JSON values. Fields keep their order and may repeat; numbers keep their spelling.
-/
namespace SourceTree

/-- `garbled` stands for a string, or an object with a key, that follows the grammar but
holds half of a surrogate pair, so that it has no text. -/
inductive Json where
  | null
  | bool (value : Bool)
  | number (spelling : String)
  | string (text : String)
  | array (items : List Json)
  | object (fields : List (String × Json))
  | garbled
  deriving Repr

namespace Json

mutual

/-- How many arrays and objects are nested. -/
def depth : Json → Nat
  | .array items => depthOfItems items + 1
  | .object fields => depthOfFields fields + 1
  | _ => 0

def depthOfItems : List Json → Nat
  | [] => 0
  | item :: rest => max item.depth (depthOfItems rest)

def depthOfFields : List (String × Json) → Nat
  | [] => 0
  | (_, value) :: rest => max value.depth (depthOfFields rest)

end

end Json

end SourceTree
