import SourceTree.Form
import SourceTree.Rename
import SourceTree.Proofs.Fields
import SourceTree.Proofs.Traversal.Rework
import SourceTree.Proofs.View

/-!
What renaming does to the tokens of a tree. A token is looked at together with its place, the
kind of its node and the name of its field. Renaming keeps every token in its place and with
its kind, and gives it a text that depends on its place, its kind and its old text.
-/
namespace SourceTree

variable {σ : Type}

/-! ### Tokens and their places -/

/-- A token, the kind of the node that holds it and the name of the field. -/
structure Occurrence where
  parent : Kind
  field : String
  token : Token

mutual

/-- Every token below a node with its place, in document order. -/
def Node.occurrences : Node → List Occurrence
  | .mk _ kind slots => slots.occurrences kind

def Slots.occurrences (parent : Kind) : {fields : List Field} → Slots fields → List Occurrence
  | _, .nil => []
  | field :: _, .cons slot rest => slot.occurrences parent field.name ++ rest.occurrences parent

def Slot.occurrences (parent : Kind) (field : String) :
    {shape : Shape} → Slot shape → List Occurrence
  | _, .node child => child.occurrences
  | _, .optNode none => []
  | _, .optNode (some child) => child.occurrences
  | _, .token child => [⟨parent, field, child⟩]
  | _, .optToken child => child.toList.map (⟨parent, field, ·⟩)
  | _, .nodes children => (nodesOccurrences children).flatten
  | _, .tokens children => children.map (⟨parent, field, ·⟩)
  | _, .separated ⟨elements, separators⟩ =>
    (Separated.weave (nodesOccurrences elements)
      (separators.map fun separator => [⟨parent, field, separator⟩])).flatten

def nodesOccurrences : List Node → List (List Occurrence)
  | [] => []
  | node :: rest => node.occurrences :: nodesOccurrences rest

end

mutual

theorem Node.map_token_occurrences : (node : Node) →
    node.occurrences.map Occurrence.token = node.tokens
  | .mk _ kind slots => Slots.map_token_occurrences kind slots

theorem Slots.map_token_occurrences (parent : Kind) : {fields : List Field} →
    (slots : Slots fields) → (slots.occurrences parent).map Occurrence.token = slots.tokens
  | _, .nil => rfl
  | field :: _, .cons slot rest => by
    rw [Slots.occurrences, Slots.tokens, List.map_append,
      Slot.map_token_occurrences parent field.name slot, Slots.map_token_occurrences parent rest]

theorem Slot.map_token_occurrences (parent : Kind) (field : String) : {shape : Shape} →
    (slot : Slot shape) → (slot.occurrences parent field).map Occurrence.token = slot.tokensIn
  | _, .node child => Node.map_token_occurrences child
  | _, .optNode none => rfl
  | _, .optNode (some child) => Node.map_token_occurrences child
  | _, .token _ => rfl
  | _, .optToken none => rfl
  | _, .optToken (some _) => rfl
  | _, .nodes children => map_token_nodesOccurrences children
  | _, .tokens children => by
    rw [Slot.occurrences, Slot.tokensIn, List.map_map]
    exact List.map_id children
  | _, .separated ⟨elements, separators⟩ =>
    map_token_weave_occurrences parent field elements separators

theorem map_token_nodesOccurrences : (nodes : List Node) →
    (nodesOccurrences nodes).flatten.map Occurrence.token = tokensAll nodes
  | [] => rfl
  | node :: rest => by
    rw [nodesOccurrences, List.flatten_cons, List.map_append, tokensAll,
      Node.map_token_occurrences node, map_token_nodesOccurrences rest]

theorem map_token_weave_occurrences (parent : Kind) (field : String) : (elements : List Node) →
    (separators : List Token) →
    (Separated.weave (nodesOccurrences elements)
        (separators.map fun separator => [⟨parent, field, separator⟩])).flatten.map
      Occurrence.token = tokensBetween elements separators
  | [], _ => rfl
  | element :: rest, [] => by
    have hrest := map_token_weave_occurrences parent field rest []
    rw [List.map_nil] at hrest
    rw [nodesOccurrences, List.map_nil, Separated.weave, List.flatten_cons, List.map_append,
      tokensBetween, Node.map_token_occurrences element, hrest]
  | element :: rest, separator :: separators => by
    rw [nodesOccurrences, List.map_cons, Separated.weave, List.flatten_cons, List.flatten_cons,
      List.map_append, List.map_append, tokensBetween, Node.map_token_occurrences element,
      map_token_weave_occurrences parent field rest separators]
    rfl

end

/-! ### New texts -/

/-- The new text of a token, by the kind of its node, its field, its kind and its text. -/
abbrev Respelling : Type := Kind → String → TokenKind → String → String

/-- The same place and kind, and the text that the respelling gives. -/
structure Occurrence.Respelled (respelling : Respelling) (before after : Occurrence) : Prop where
  parent_eq : after.parent = before.parent
  field_eq : after.field = before.field
  kind_eq : after.token.kind = before.token.kind
  text_eq : after.token.text =
    respelling before.parent before.field before.token.kind before.token.text

structure Token.Respelled (spell : TokenKind → String → String) (before after : Token) : Prop where
  fresh : before.same after = true → after = before
  kind_eq : after.kind = before.kind
  text_eq : after.text = spell before.kind before.text

/-- The tokens of two trees correspond, each in its place with its new text. -/
def Respells (respelling : Respelling) (before after : Node) : Prop :=
  List.Forall₂ (Occurrence.Respelled respelling) before.occurrences after.occurrences

structure Node.Respelled (respelling : Respelling) (before after : Node) : Prop where
  fresh : before.same after = true → after = before
  respells : Respells respelling before after

namespace Respells

theorem refl (tree : Node) : Respells (fun _ _ _ text => text) tree tree :=
  List.forall₂_same.mpr fun _ _ => ⟨rfl, rfl, rfl, rfl⟩

theorem congr {first second : Respelling} {before after : Node} (h : Respells first before after)
    (heq : ∀ parent field kind text,
      first parent field kind text = second parent field kind text) :
    Respells second before after :=
  h.imp fun _ _ h => ⟨h.parent_eq, h.field_eq, h.kind_eq, h.text_eq.trans (heq _ _ _ _)⟩

theorem trans {first second : Respelling} {a b c : Node} (hab : Respells first a b)
    (hbc : Respells second b c) :
    Respells (fun parent field kind text => second parent field kind (first parent field kind text))
      a c := by
  unfold Respells at hab hbc ⊢
  generalize a.occurrences = as, b.occurrences = bs, c.occurrences = cs at hab hbc ⊢
  induction hab generalizing cs with
  | nil =>
    cases hbc
    exact .nil
  | cons hfirst _ ih =>
    cases hbc with
    | cons hsecond hrest =>
      refine .cons ⟨hsecond.parent_eq.trans hfirst.parent_eq,
        hsecond.field_eq.trans hfirst.field_eq, hsecond.kind_eq.trans hfirst.kind_eq, ?_⟩
        (ih _ hrest)
      rw [hsecond.text_eq, hfirst.parent_eq, hfirst.field_eq, hfirst.kind_eq, hfirst.text_eq]

end Respells

theorem forall₂_weave {α : Type} {R : α → α → Prop} {as bs cs ds : List α}
    (h : List.Forall₂ R as bs) (h' : List.Forall₂ R cs ds) :
    List.Forall₂ R (Separated.weave as cs) (Separated.weave bs ds) := by
  induction h generalizing cs ds with
  | nil => exact .nil
  | cons hab _ ih =>
    cases h' with
    | nil => exact .cons hab (ih .nil)
    | cons hcd hrest => exact .cons hab (.cons hcd (ih hrest))

section Match

variable {respelling : Respelling} {parent : Kind}

theorem nodesOccurrences_respelled {before after : List Node}
    (h : List.Forall₂ (Node.Respelled respelling) before after) :
    List.Forall₂ (List.Forall₂ (Occurrence.Respelled respelling)) (nodesOccurrences before)
      (nodesOccurrences after) := by
  induction h with
  | nil => exact .nil
  | cons hnode _ ih => exact .cons hnode.respells ih

theorem length_nodesOccurrences (nodes : List Node) :
    (nodesOccurrences nodes).length = nodes.length := by
  induction nodes with
  | nil => rfl
  | cons node nodes ih => rw [nodesOccurrences, List.length_cons, List.length_cons, ih]

theorem Token.Respelled.occurrence {field : String} {before after : Token}
    (h : before.Respelled (respelling parent field) after) :
    Occurrence.Respelled respelling ⟨parent, field, before⟩ ⟨parent, field, after⟩ :=
  ⟨rfl, rfl, h.kind_eq, h.text_eq⟩

theorem Slot.Match.occurrences {field : String} {shape : Shape} {before after : Slot shape}
    (h : before.Match (Node.Respelled respelling)
      (Token.Respelled (respelling parent field)) after) :
    List.Forall₂ (Occurrence.Respelled respelling) (before.occurrences parent field)
      (after.occurrences parent field) := by
  have htokens : ∀ {as bs : List Token},
      List.Forall₂ (Token.Respelled (respelling parent field)) as bs →
      List.Forall₂ (Occurrence.Respelled respelling)
        (as.map (⟨parent, field, ·⟩)) (bs.map (⟨parent, field, ·⟩)) := by
    intro as bs h
    rw [List.forall₂_map_left_iff, List.forall₂_map_right_iff]
    exact h.imp fun _ _ h => h.occurrence
  cases h with
  | node h => exact h.respells
  | optNode h =>
    cases h with
    | none => exact .nil
    | some h => exact h.respells
  | token h => exact .cons h.occurrence .nil
  | optToken h =>
    cases h with
    | none => exact .nil
    | some h => exact .cons h.occurrence .nil
  | nodes h => exact List.rel_flatten (nodesOccurrences_respelled h)
  | tokens h => exact htokens h
  | @separated before after h =>
    have hseparators : List.Forall₂ (List.Forall₂ (Occurrence.Respelled respelling))
        ((before.separators.take before.elements.length).map fun separator =>
          [⟨parent, field, separator⟩])
        (after.separators.map fun separator => [⟨parent, field, separator⟩]) := by
      rw [List.forall₂_map_left_iff, List.forall₂_map_right_iff]
      exact h.separators.imp fun _ _ h => .cons h.occurrence .nil
    have hweave := forall₂_weave (nodesOccurrences_respelled h.elements) hseparators
    rw [List.map_take, ← length_nodesOccurrences, Separated.weave_take] at hweave
    exact List.rel_flatten hweave

theorem Slots.Match.occurrences {fields : List Field} {before after : Slots fields}
    (h : before.Match (Node.Respelled respelling)
      (fun field => Token.Respelled (respelling parent field)) after) :
    List.Forall₂ (Occurrence.Respelled respelling) (before.occurrences parent)
      (after.occurrences parent) := by
  induction h with
  | nil => exact .nil
  | cons hslot _ ih => exact List.rel_append hslot.occurrences ih

end Match

/-! ### One field -/

section SetToken

variable {onNode : Node → Node → Prop} {onToken other : String → Token → Token → Prop}
  {name : String} {fields : List Field}

theorem Slot.Match.mono {onToken other : Token → Token → Prop}
    (hmono : ∀ a b, onToken a b → other a b) {shape : Shape} {before after : Slot shape}
    (h : before.Match onNode onToken after) : before.Match onNode other after := by
  cases h with
  | node h => exact .node h
  | optNode h => exact .optNode h
  | token h => exact .token (hmono _ _ h)
  | optToken h =>
    cases h with
    | none => exact .optToken .none
    | some h => exact .optToken (.some (hmono _ _ h))
  | nodes h => exact .nodes h
  | tokens h => exact .tokens (h.imp hmono)
  | separated h => exact .separated ⟨h.elements, h.separators.imp hmono⟩

theorem Slots.Match.mono
    (hmono : ∀ field ∈ fields, ∀ a b, onToken field.name a b → other field.name a b)
    {before after : Slots fields} (h : before.Match onNode onToken after) :
    before.Match onNode other after := by
  induction h with
  | nil => exact .nil
  | cons hslot _ ih =>
    exact .cons (hslot.mono (hmono _ List.mem_cons_self))
      (ih fun field hf => hmono field (List.mem_cons_of_mem _ hf))

end SetToken

/-! ### Walks -/

end SourceTree
