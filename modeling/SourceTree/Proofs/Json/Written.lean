import SourceTree.Proofs.Json.Tree

/-!
The ways to write a tree. Every record in it may take any of its forms, the name of a token's
or a trivia's kind may be wrapped in an object, and slots that hold nothing may be left out.
Any text that spells one of them is read as the tree, without labels and metadata.

The relations count the arrays and objects that are nested in each other. The values of
ignored fields are not counted.
-/
namespace SourceTree

open Json (Record)

/-! ### Forms -/

/-- The forms of a name out of a fixed choice. -/
inductive Json.ChoiceWritten (name : String) : Nat → Json → Prop where
  | plain {depth : Nat} : ChoiceWritten name depth (.string name)
  | wrapped {depth : Nat} : ChoiceWritten name (depth + 1) (.object [(name, .null)])

mutual

/-- The forms of a node in which at most so many arrays and objects are nested. -/
inductive Node.Written : Nat → Node → Json → Prop where
  | mk {depth : Nat} {info : Info} {kind : Kind} {slots : Slots kind.fields}
      {values : List (Option Json)} {body : Json} (hslots : Slots.Written depth slots values)
      (hbody : Record (kind.fields.map Field.name) 0 values body) :
      Node.Written (depth + 2) (.mk info kind slots) (.object [(kind.name, body)])

inductive Slots.Written : Nat → {fields : List Field} → Slots fields → List (Option Json) →
    Prop where
  | nil {depth : Nat} : Slots.Written depth .nil []
  | cons {depth : Nat} {field : Field} {fields : List Field} {slot : Slot field.shape}
      {rest : Slots fields} {value : Option Json} {values : List (Option Json)}
      (hslot : Slot.Written depth slot value) (hrest : Slots.Written depth rest values) :
      Slots.Written depth (.cons slot rest) (value :: values)

/-- A slot that holds nothing is `null` or left out. -/
inductive Slot.Written : Nat → {shape : Shape} → Slot shape → Option Json → Prop where
  | node {depth : Nat} {child : Node} {json : Json} (h : Node.Written depth child json) :
      Slot.Written depth (.node child) (some json)
  | noNode {depth : Nat} : Slot.Written depth (.optNode none) none
  | nullNode {depth : Nat} : Slot.Written depth (.optNode none) (some .null)
  | optNode {depth : Nat} {child : Node} {json : Json} (h : Node.Written depth child json) :
      Slot.Written depth (.optNode (some child)) (some json)
  | token {depth : Nat} {child : Token} {json : Json} (h : Token.Written depth child json) :
      Slot.Written depth (.token child) (some json)
  | noToken {depth : Nat} : Slot.Written depth (.optToken none) none
  | nullToken {depth : Nat} : Slot.Written depth (.optToken none) (some .null)
  | optToken {depth : Nat} {child : Token} {json : Json} (h : Token.Written depth child json) :
      Slot.Written depth (.optToken (some child)) (some json)
  | nodes {depth : Nat} {children : List Node} {items : List Json}
      (h : NodesWritten depth children items) :
      Slot.Written (depth + 1) (.nodes children) (some (.array items))
  | tokens {depth : Nat} {children : List Token} {items : List Json}
      (h : TokensWritten depth children items) :
      Slot.Written (depth + 1) (.tokens children) (some (.array items))
  | separated {depth : Nat} {elements : List Node} {separators : List Token}
      {nodes tokens : List Json} {json : Json} (helements : NodesWritten depth elements nodes)
      (hseparators : TokensWritten depth separators tokens)
      (h : Record ["elements", "separators"] 0 [some (.array nodes), some (.array tokens)] json) :
      Slot.Written (depth + 2) (.separated ⟨elements, separators⟩) (some json)

inductive NodesWritten : Nat → List Node → List Json → Prop where
  | nil {depth : Nat} : NodesWritten depth [] []
  | cons {depth : Nat} {node : Node} {nodes : List Node} {item : Json} {items : List Json}
      (h : Node.Written depth node item) (rest : NodesWritten depth nodes items) :
      NodesWritten depth (node :: nodes) (item :: items)

inductive Token.Written : Nat → Token → Json → Prop where
  | mk {depth : Nat} {label : Option Nat} {kind : TokenKind} {text : String}
      {leading trailing : List Trivia} {kindForm : Json} {before after : List Json} {json : Json}
      (hkind : Json.ChoiceWritten kind.name (depth + 1) kindForm)
      (hleading : TriviasWritten depth leading before)
      (htrailing : TriviasWritten depth trailing after)
      (h : Record ["kind", "text", "leading", "trailing"] 0
        [some kindForm, some (.string text), some (.array before), some (.array after)] json) :
      Token.Written (depth + 2) (.mk label kind text leading trailing) json

inductive TokensWritten : Nat → List Token → List Json → Prop where
  | nil {depth : Nat} : TokensWritten depth [] []
  | cons {depth : Nat} {token : Token} {tokens : List Token} {item : Json} {items : List Json}
      (h : Token.Written depth token item) (rest : TokensWritten depth tokens items) :
      TokensWritten depth (token :: tokens) (item :: items)

inductive Trivia.Written : Nat → Trivia → Json → Prop where
  | mk {depth : Nat} {label : Option Nat} {kind : TriviaKind} {text : String}
      {inner : Option Node} {kindForm : Json} {tree : Option Json} {json : Json}
      (hkind : Json.ChoiceWritten kind.name depth kindForm)
      (htree : Slot.Written depth (.optNode inner) tree)
      (h : Record ["kind", "text", "structure"] 1 [some kindForm, some (.string text), tree] json) :
      Trivia.Written (depth + 1) (.mk label kind text inner) json

inductive TriviasWritten : Nat → List Trivia → List Json → Prop where
  | nil {depth : Nat} : TriviasWritten depth [] []
  | cons {depth : Nat} {trivia : Trivia} {trivias : List Trivia} {item : Json} {items : List Json}
      (h : Trivia.Written depth trivia item) (rest : TriviasWritten depth trivias items) :
      TriviasWritten depth (trivia :: trivias) (item :: items)

end

/-! ### Reading -/

namespace Json

theorem ChoiceWritten.read {name : String} {depth : Nat} {json : Json}
    (h : ChoiceWritten name depth json) : (reader depth).choice json = some name := by
  cases h with
  | plain => exact reader_choice ..
  | wrapped => rfl

/-- A reader that does not take `null` for a value. -/
theorem readOpt_some {α : Type} {read : Json → Option α} {json : Json} {value : α}
    (hnull : read .null = none) (h : read json = some value) :
    readOpt read (some json) = some (some value) := by
  cases json with
  | null => exact absurd (hnull.symm.trans h) (by simp)
  | bool | number | string | array | object | garbled => simp [readOpt, h]

theorem reader_node_null (depth : Nat) : (reader depth).node .null = none := by
  cases depth <;> rfl

theorem reader_token_null (depth : Nat) : (reader depth).token .null = none := by
  cases depth <;> rfl

end Json

theorem Slots.Written.length_eq : {depth : Nat} → {fields : List Field} → {slots : Slots fields} →
    {values : List (Option Json)} → Slots.Written depth slots values →
    fields.length = values.length
  | _, _, _, _, .nil => rfl
  | _, _, _, _, .cons _ hrest => congrArg Nat.succ hrest.length_eq

open Json

mutual

theorem Node.Written.read : {depth : Nat} → {node : Node} → {json : Json} →
    Node.Written depth node json → (reader depth).node json = some node.bare
  | _, _, _, @Node.Written.mk _ _ kind _ _ _ hslots hbody => by
    have hlength := hslots.length_eq
    rw [← List.length_map Field.name] at hlength
    have hrecord := record?_of_record hbody hlength kind.nodup_fieldNames
    simp [reader, Reader.opening, Kind.ofName?_name, hrecord, hslots.read, Node.bare]

theorem Slots.Written.read : {depth : Nat} → {fields : List Field} → {slots : Slots fields} →
    {values : List (Option Json)} → Slots.Written depth slots values →
    (reader depth).slots fields values = some slots.bare
  | _, _, _, _, .nil => rfl
  | _, _, _, _, .cons hslot hrest => by
    rw [Reader.slots, hslot.read, hrest.read, Slots.bare]

theorem Slot.Written.read : {depth : Nat} → {shape : Shape} → {slot : Slot shape} →
    {value : Option Json} → Slot.Written depth slot value →
    (reader depth).slot shape value = some slot.bare
  | _, _, _, _, .node h => by simp [Reader.slot, h.read, Slot.bare]
  | _, _, _, _, .noNode => rfl
  | _, _, _, _, .nullNode => rfl
  | depth, _, _, _, .optNode h => by
    simp [Reader.slot, readOpt_some (reader_node_null depth) h.read, Slot.bare]
  | _, _, _, _, .token h => by simp [Reader.slot, h.read, Slot.bare]
  | _, _, _, _, .noToken => rfl
  | _, _, _, _, .nullToken => rfl
  | depth, _, _, _, .optToken h => by
    simp [Reader.slot, readOpt_some (reader_token_null depth) h.read, Slot.bare]
  | _, _, _, _, .nodes h => by
    simp [Reader.slot, reader, Reader.opening, items?, h.read, Slot.bare]
  | _, _, _, _, .tokens h => by
    simp [Reader.slot, reader, Reader.opening, items?, h.read, Slot.bare]
  | _, _, _, _, .separated helements hseparators h => by
    have hrecord := record?_of_record h rfl (by decide)
    simp [Reader.slot, reader, Reader.opening, items?, hrecord, helements.read, hseparators.read,
      Slot.bare]

theorem NodesWritten.read : {depth : Nat} → {nodes : List Node} → {items : List Json} →
    NodesWritten depth nodes items → readAll (reader depth).node items = some (bareNodes nodes)
  | _, _, _, .nil => rfl
  | _, _, _, .cons h hrest => by rw [readAll, h.read, hrest.read, bareNodes]

theorem Token.Written.read : {depth : Nat} → {token : Token} → {json : Json} →
    Token.Written depth token json → (reader depth).token json = some token.bare
  | _, _, _, @Token.Written.mk _ _ kind _ _ _ form _ _ _ hkind hleading htrailing h => by
    have hrecord := record?_of_record h rfl (by decide)
    have hname : form.wrappedChoice? = some kind.name := hkind.read
    simp [reader, Reader.opening, items?, hrecord, hname, hleading.read, htrailing.read,
      TokenKind.ofName?_name, text?, Token.bare]

theorem TokensWritten.read : {depth : Nat} → {tokens : List Token} → {items : List Json} →
    TokensWritten depth tokens items → readAll (reader depth).token items = some (bareTokens tokens)
  | _, _, _, .nil => rfl
  | _, _, _, .cons h hrest => by rw [readAll, h.read, hrest.read, bareTokens]

theorem Trivia.Written.read : {depth : Nat} → {trivia : Trivia} → {json : Json} →
    Trivia.Written depth trivia json → (reader depth).trivia json = some trivia.bare
  | _, _, _, @Trivia.Written.mk depth _ kind _ inner _ tree _ hkind htree h => by
    have hrecord := record?_of_record h rfl (by decide)
    have hinner : readOpt (reader depth).node tree = some (inner.map Node.bare) := by
      have hslot := htree.read
      cases inner <;> simpa [Reader.slot, Slot.bare] using hslot
    simp [reader, Reader.opening, hrecord, hkind.read, hinner, TriviaKind.ofName?_name, text?,
      Trivia.bare_eq, Trivia.kind, Trivia.text, Trivia.inner]

theorem TriviasWritten.read : {depth : Nat} → {trivias : List Trivia} → {items : List Json} →
    TriviasWritten depth trivias items →
    readAll (reader depth).trivia items = some (bareTrivia trivias)
  | _, _, _, .nil => rfl
  | _, _, _, .cons h hrest => by rw [readAll, h.read, hrest.read, bareTrivia]

end

/-! ### The form that is printed -/

mutual

theorem Node.written_toJson : (node : Node) → {depth : Nat} → node.toJson.depth ≤ depth →
    Node.Written depth node node.toJson
  | .mk _ _ slots, depth, h => by
    simp only [Node.toJson, Json.depth, depthOfFields] at h
    obtain ⟨depth, rfl⟩ : ∃ n, depth = n + 2 := ⟨depth - 2, by omega⟩
    exact .mk (slots.written_toJson (by omega)) (record_object slots.map_fst_toJson 0)

theorem Slots.written_toJson : {fields : List Field} → (slots : Slots fields) → {depth : Nat} →
    depthOfFields slots.toJson ≤ depth →
    Slots.Written depth slots (slots.toJson.map fun field => some field.2)
  | _, .nil, _, _ => .nil
  | _, .cons slot rest, depth, h => by
    simp only [Slots.toJson, depthOfFields] at h
    exact .cons (slot.written_toJson (by omega)) (rest.written_toJson (by omega))

theorem Slot.written_toJson : {shape : Shape} → (slot : Slot shape) → {depth : Nat} →
    slot.toJson.depth ≤ depth → Slot.Written depth slot (some slot.toJson)
  | _, .node child, _, h => .node (child.written_toJson h)
  | _, .optNode none, _, _ => .nullNode
  | _, .optNode (some child), _, h => .optNode (child.written_toJson h)
  | _, .token child, _, h => .token (child.written_toJson h)
  | _, .optToken none, _, _ => .nullToken
  | _, .optToken (some child), _, h => .optToken (child.written_toJson h)
  | _, .nodes children, depth + 1, h =>
    .nodes (nodesWritten_toJson children (Nat.le_of_succ_le_succ h))
  | _, .tokens children, depth + 1, h =>
    .tokens (tokensWritten_toJson children (Nat.le_of_succ_le_succ h))
  | _, .separated ⟨elements, separators⟩, depth, h => by
    simp only [Slot.toJson, Json.depth, depthOfFields] at h
    obtain ⟨depth, rfl⟩ : ∃ n, depth = n + 2 := ⟨depth - 2, by omega⟩
    exact .separated (nodesWritten_toJson elements (by omega))
      (tokensWritten_toJson separators (by omega)) (record_present ..)

theorem nodesWritten_toJson : (nodes : List Node) → {depth : Nat} →
    depthOfItems (nodesToJson nodes) ≤ depth → NodesWritten depth nodes (nodesToJson nodes)
  | [], _, _ => .nil
  | node :: rest, depth, h => by
    simp only [nodesToJson, depthOfItems] at h
    exact .cons (node.written_toJson (by omega)) (nodesWritten_toJson rest (by omega))

theorem Token.written_toJson : (token : Token) → {depth : Nat} → token.toJson.depth ≤ depth →
    Token.Written depth token token.toJson
  | .mk _ kind text leading trailing, depth, h => by
    simp only [Token.toJson, Json.depth, depthOfFields] at h
    obtain ⟨depth, rfl⟩ : ∃ n, depth = n + 2 := ⟨depth - 2, by omega⟩
    exact .mk .plain (triviasWritten_toJson leading (by omega))
      (triviasWritten_toJson trailing (by omega)) (record_present ..)

theorem tokensWritten_toJson : (tokens : List Token) → {depth : Nat} →
    depthOfItems (tokensToJson tokens) ≤ depth → TokensWritten depth tokens (tokensToJson tokens)
  | [], _, _ => .nil
  | token :: rest, depth, h => by
    simp only [tokensToJson, depthOfItems] at h
    exact .cons (token.written_toJson (by omega)) (tokensWritten_toJson rest (by omega))

theorem Trivia.written_toJson : (trivia : Trivia) → {depth : Nat} → trivia.toJson.depth ≤ depth →
    Trivia.Written depth trivia trivia.toJson
  | .mk _ kind text none, depth + 1, _ =>
    .mk .plain .noNode (record_present ..)
  | .mk _ kind text (some inner), depth, h => by
    simp only [Trivia.toJson, Json.depth, depthOfFields] at h
    obtain ⟨depth, rfl⟩ : ∃ n, depth = n + 1 := ⟨depth - 1, by omega⟩
    exact .mk .plain (.optNode (inner.written_toJson (by omega))) (record_present ..)

theorem triviasWritten_toJson : (trivias : List Trivia) → {depth : Nat} →
    depthOfItems (triviaToJson trivias) ≤ depth →
    TriviasWritten depth trivias (triviaToJson trivias)
  | [], _, _ => .nil
  | trivia :: rest, depth, h => by
    simp only [triviaToJson, depthOfItems] at h
    exact .cons (trivia.written_toJson (by omega)) (triviasWritten_toJson rest (by omega))

end

/-- Any text of any form of a tree is read as an equal tree. What is printed for a tree is one of
its forms. -/
theorem Node.ofText?_of_written (tree : Node) :
    (∀ depth, tree.toJson.depth ≤ depth → tree.Written depth tree.toJson) ∧
    ∀ (json : Json) (words : List Lexeme) (text : String), tree.Written 127 json →
      Denotes words json → Spells text.toList words →
      ∃ result, Node.ofText? text = some result ∧ result.equal tree = true := by
  refine ⟨fun depth h => tree.written_toJson h, ?_⟩
  intro json words text hwritten hwords htext
  have hread : Node.ofText? text = some tree.bare := by
    rw [Node.ofText?, parse?_of_denotes hwords htext]
    exact hwritten.read
  exact ⟨tree.bare, hread, tree.equal_bare⟩

/-- The name `x` behind a blank. -/
def Node.spacedName : Node :=
  .identifierName (.mk none .identifier "x" [.ofText .whitespace " "] [])

/-- Here a token and a piece of trivia are arrays. -/
def Node.spacedNameForm : Json :=
  .object [("IdentifierName", .object [("identifier", .array [.string "Identifier", .string "x",
    .array [.array [.string "Whitespace", .string " "]], .array []])])]

theorem Node.written_spacedNameForm : Node.spacedName.Written 121 Node.spacedNameForm := by
  have hblank : (Trivia.ofText .whitespace " ").Written 117
      (.array [.string "Whitespace", .string " "]) :=
    .mk .plain .noNode (@Record.array _ _ _ _ 1 rfl (Nat.le_refl 1))
  have hidentifier : (Token.mk none .identifier "x" [.ofText .whitespace " "] []).Written 119
      (.array [.string "Identifier", .string "x",
        .array [.array [.string "Whitespace", .string " "]], .array []]) :=
    .mk .plain (.cons hblank .nil) .nil (@Record.array _ _ _ _ 0 rfl (Nat.le_refl 0))
  exact .mk (.cons (.token hidentifier) .nil) (record_present ..)

/-- The arguments `( x)`. -/
def Node.oneArgument : Node :=
  .argumentList (Build.punctuation "(") ⟨[.argument none .spacedName], []⟩ (Build.punctuation ")")

/-- Here the node is an array, a kind is wrapped, a slot is left out, and the list has its fields
out of order and two that are ignored. -/
def Node.oneArgumentForm : Json :=
  .object [("ArgumentList", .array [
    .object [("kind", .object [("Punctuation", .null)]), ("text", .string "("),
      ("leading", .array []), ("trailing", .array [])],
    .object [("metadata", .null), ("metadata", .array [.number "0"]), ("separators", .array []),
      ("elements", .array [.object [("Argument", .object [("expression", spacedNameForm)])]])],
    .array [.string "Punctuation", .string ")", .array [], .array []]])]

theorem Node.written_oneArgumentForm : Node.oneArgument.Written 127 Node.oneArgumentForm := by
  have hopen : (Build.punctuation "(").Written 125
      (.object [("kind", .object [("Punctuation", .null)]), ("text", .string "("),
        ("leading", .array []), ("trailing", .array [])]) :=
    .mk .wrapped .nil .nil (record_present ..)
  have hargument : (Node.argument none .spacedName).Written 123
      (.object [("Argument", .object [("expression", spacedNameForm)])]) :=
    .mk (.cons .noToken (.cons (.node Node.written_spacedNameForm) .nil)) (record_present ..)
  have hlist := @Record.object _ 0 _ _ [("metadata", .array [.number "0"]), ("metadata", .null)]
    (List.reverse_perm (present ["elements", "separators"]
      [some (.array [.object [("Argument", .object [("expression", spacedNameForm)])]]),
        some (.array [])] ++ _)) (by decide)
  have hclose : (Build.punctuation ")").Written 125
      (.array [.string "Punctuation", .string ")", .array [], .array []]) :=
    .mk .plain .nil .nil (@Record.array _ _ _ _ 0 rfl (Nat.le_refl 0))
  exact .mk (.cons (.token hopen) (.cons (.separated (.cons hargument .nil) .nil hlist)
    (.cons (.token hclose) .nil))) (@Record.array _ _ _ _ 0 rfl (Nat.le_refl 0))

theorem Node.ofText?_oneArgumentForm :
    Node.oneArgument.Written 127 Node.oneArgumentForm ∧
    ∃ result, Node.ofText? (Node.oneArgumentForm.pretty 0 ++ "\n") = some result ∧
      result.equal Node.oneArgument = true :=
  ⟨Node.written_oneArgumentForm,
    (Node.ofText?_of_written Node.oneArgument).2 _ _ _ Node.written_oneArgumentForm
      (denotes_words _) (spells_pretty (by decide) 0)⟩

end SourceTree
