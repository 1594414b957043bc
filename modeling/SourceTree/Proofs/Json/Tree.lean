import SourceTree.Build.Code
import SourceTree.Proofs.Equality
import SourceTree.Proofs.Json.Print
import SourceTree.Proofs.Json.Record

/-!
Trees written as JSON and read back. The reader with a given allowance reads the JSON form of
a tree exactly when its depth is within the allowance, and then gives the tree without labels
and metadata. So a tree survives being written and read up to the limit of the reader, and no
text beyond the limit is read.
-/
namespace SourceTree

/-! ### Written trees -/

mutual

theorem Node.toJson_bare : (node : Node) → node.bare.toJson = node.toJson
  | .mk _ kind slots => by simp [Node.bare, Node.toJson, Slots.toJson_bare slots]

theorem Slots.toJson_bare : {fields : List Field} → (slots : Slots fields) →
    slots.bare.toJson = slots.toJson
  | _, .nil => rfl
  | _, .cons slot rest => by
    simp [Slots.bare, Slots.toJson, Slot.toJson_bare slot, Slots.toJson_bare rest]

theorem Slot.toJson_bare : {shape : Shape} → (slot : Slot shape) → slot.bare.toJson = slot.toJson
  | _, .node child => by simp [Slot.bare, Slot.toJson, Node.toJson_bare child]
  | _, .optNode none => rfl
  | _, .optNode (some child) => by simp [Slot.bare, Slot.toJson, Node.toJson_bare child]
  | _, .token child => by simp [Slot.bare, Slot.toJson, Token.toJson_bare child]
  | _, .optToken none => rfl
  | _, .optToken (some child) => by simp [Slot.bare, Slot.toJson, Token.toJson_bare child]
  | _, .nodes children => by simp [Slot.bare, Slot.toJson, nodesToJson_bare children]
  | _, .tokens children => by simp [Slot.bare, Slot.toJson, tokensToJson_bare children]
  | _, .separated ⟨elements, separators⟩ => by
    simp [Slot.bare, Slot.toJson, nodesToJson_bare elements, tokensToJson_bare separators]

theorem nodesToJson_bare : (nodes : List Node) → nodesToJson (bareNodes nodes) = nodesToJson nodes
  | [] => rfl
  | node :: rest => by simp [bareNodes, nodesToJson, Node.toJson_bare node, nodesToJson_bare rest]

theorem Token.toJson_bare : (token : Token) → token.bare.toJson = token.toJson
  | .mk _ kind text leading trailing => by
    simp [Token.bare, Token.toJson, triviaToJson_bare leading, triviaToJson_bare trailing]

theorem tokensToJson_bare : (tokens : List Token) →
    tokensToJson (bareTokens tokens) = tokensToJson tokens
  | [] => rfl
  | token :: rest => by
    simp [bareTokens, tokensToJson, Token.toJson_bare token, tokensToJson_bare rest]

theorem Trivia.toJson_bare : (trivia : Trivia) → trivia.bare.toJson = trivia.toJson
  | .mk _ kind text none => rfl
  | .mk _ kind text (some inner) => by simp [Trivia.bare, Trivia.toJson, Node.toJson_bare inner]

theorem triviaToJson_bare : (trivias : List Trivia) →
    triviaToJson (bareTrivia trivias) = triviaToJson trivias
  | [] => rfl
  | trivia :: rest => by
    simp [bareTrivia, triviaToJson, Trivia.toJson_bare trivia, triviaToJson_bare rest]

end

mutual

/-- What is written for a tree has no numbers and is never `garbled`. -/
theorem Node.toJson_isProper : (node : Node) → node.toJson.isProper = true
  | .mk _ kind slots => by
    simp [Node.toJson, Json.isProper, Json.fieldsProper, Slots.toJson_isProper slots]

theorem Slots.toJson_isProper : {fields : List Field} → (slots : Slots fields) →
    Json.fieldsProper slots.toJson = true
  | _, .nil => rfl
  | _, .cons slot rest => by
    simp [Slots.toJson, Json.fieldsProper, Slot.toJson_isProper slot, Slots.toJson_isProper rest]

theorem Slot.toJson_isProper : {shape : Shape} → (slot : Slot shape) →
    slot.toJson.isProper = true
  | _, .node child => Node.toJson_isProper child
  | _, .optNode none => rfl
  | _, .optNode (some child) => Node.toJson_isProper child
  | _, .token child => Token.toJson_isProper child
  | _, .optToken none => rfl
  | _, .optToken (some child) => Token.toJson_isProper child
  | _, .nodes children => nodesToJson_isProper children
  | _, .tokens children => tokensToJson_isProper children
  | _, .separated ⟨elements, separators⟩ => by
    simp [Slot.toJson, Json.isProper, Json.fieldsProper, nodesToJson_isProper elements,
      tokensToJson_isProper separators]

theorem nodesToJson_isProper : (nodes : List Node) → Json.itemsProper (nodesToJson nodes) = true
  | [] => rfl
  | node :: rest => by
    simp [nodesToJson, Json.itemsProper, Node.toJson_isProper node, nodesToJson_isProper rest]

theorem Token.toJson_isProper : (token : Token) → token.toJson.isProper = true
  | .mk _ kind text leading trailing => by
    simp [Token.toJson, Json.isProper, Json.fieldsProper, triviaToJson_isProper leading,
      triviaToJson_isProper trailing]

theorem tokensToJson_isProper : (tokens : List Token) →
    Json.itemsProper (tokensToJson tokens) = true
  | [] => rfl
  | token :: rest => by
    simp [tokensToJson, Json.itemsProper, Token.toJson_isProper token, tokensToJson_isProper rest]

theorem Trivia.toJson_isProper : (trivia : Trivia) → trivia.toJson.isProper = true
  | .mk _ kind text none => rfl
  | .mk _ kind text (some inner) => by
    simp [Trivia.toJson, Json.isProper, Json.fieldsProper, Node.toJson_isProper inner]

theorem triviaToJson_isProper : (trivias : List Trivia) →
    Json.itemsProper (triviaToJson trivias) = true
  | [] => rfl
  | trivia :: rest => by
    simp [triviaToJson, Json.itemsProper, Trivia.toJson_isProper trivia, triviaToJson_isProper rest]

end

/-! ### Names -/

theorem Kind.ofName?_name (kind : Kind) : Kind.ofName? kind.name = some kind := by
  cases kind <;> decide

theorem TokenKind.ofName?_name (kind : TokenKind) : TokenKind.ofName? kind.name = some kind := by
  cases kind <;> decide

theorem TriviaKind.ofName?_name (kind : TriviaKind) :
    TriviaKind.ofName? kind.name = some kind := by
  cases kind <;> decide

theorem Kind.nodup_fieldNames (kind : Kind) : (kind.fields.map Field.name).Nodup := by
  cases kind <;> decide

theorem Slots.map_fst_toJson : {fields : List Field} → (slots : Slots fields) →
    slots.toJson.map Prod.fst = fields.map Field.name
  | _, .nil => rfl
  | field :: _, .cons slot rest => by
    rw [Slots.toJson, List.map_cons, rest.map_fst_toJson, List.map_cons]

namespace Json

/-- An object with distinct keys gives each of them its value. -/
theorem record?_object {fields : List (String × Json)} {names : List String}
    (hnames : fields.map Prod.fst = names) (h : names.Nodup) (optional : Nat) :
    record? names optional (.object fields) = some (fields.map fun field => some field.2) :=
  record?_of_record (record_object hnames optional) (by simp [← hnames]) h

/-! ### Reading within an allowance -/

/-- A value of some depth, if the allowance is enough for it. -/
def within {α : Type} (depth allowance : Nat) (value : α) : Option α :=
  if depth ≤ allowance then some value else none

section Within

variable {α β : Type} (depth allowance : Nat) (value : α)

@[simp] theorem within_zero : within 0 allowance value = some value := rfl

@[simp] theorem within_succ_succ :
    within (depth + 1) (allowance + 1) value = within depth allowance value := by
  simp only [within, Nat.add_le_add_iff_right]

@[simp] theorem map_within (f : α → β) :
    (within depth allowance value).map f = within depth allowance (f value) := by
  simp only [within]
  split <;> rfl

theorem bind_within (f : α → β) :
    ((within depth allowance value).bind fun value => some (f value)) =
      within depth allowance (f value) := by
  simp only [within]
  split <;> rfl

/-- Of two values read one after the other, the deeper one counts. -/
theorem bind_within_within {γ : Type} (other : Nat) (second : β) (f : α → β → γ) :
    ((within depth allowance value).bind fun value =>
        (within other allowance second).bind fun second => some (f value second)) =
      within (max depth other) allowance (f value second) := by
  by_cases hd : depth ≤ allowance
  · by_cases ho : other ≤ allowance
    · have hmax : max depth other ≤ allowance := by omega
      simp [within, hd, ho, hmax]
    · have hmax : ¬ max depth other ≤ allowance := by omega
      simp [within, hd, ho, hmax]
  · have hmax : ¬ max depth other ≤ allowance := by omega
    simp [within, hd, hmax]

end Within

/-- The names of choices are read with any allowance. -/
theorem reader_choice (allowance : Nat) (name : String) :
    (reader allowance).choice (.string name) = some name := by
  cases allowance <;> rfl

theorem readAll_cons {α : Type} (read : Json → Option α) (item : Json) (rest : List Json) :
    readAll read (item :: rest) =
      (read item).bind fun value =>
        (readAll read rest).bind fun values => some (value :: values) := by
  rw [readAll]
  cases read item <;> cases readAll read rest <;> rfl

theorem Reader.slots_cons (reader : Reader) (field : Field) (fields : List Field)
    (value : Option Json) (values : List (Option Json)) :
    reader.slots (field :: fields) (value :: values) =
      (reader.slot field.shape value).bind fun slot =>
        (reader.slots fields values).bind fun rest => some (.cons slot rest) := by
  rw [Reader.slots]
  cases reader.slot field.shape value <;> cases reader.slots fields values <;> rfl

theorem readOpt_node {α : Type} (read : Json → Option α) (node : Node) :
    readOpt read (some node.toJson) = (read node.toJson).map some := by
  cases node
  rfl

theorem readOpt_token {α : Type} (read : Json → Option α) (token : Token) :
    readOpt read (some token.toJson) = (read token.toJson).map some := by
  cases token
  rfl

end Json

section Read

open Json

variable (allowance : Nat)

/-- The array is one level, its items are read with what is left. -/
theorem read_nodes {nodes : List Node}
    (h : ∀ allowance, readAll (reader allowance).node (nodesToJson nodes) =
      within (depthOfItems (nodesToJson nodes)) allowance (bareNodes nodes)) :
    (reader allowance).nodes (.array (nodesToJson nodes)) =
      within (depthOfItems (nodesToJson nodes) + 1) allowance (bareNodes nodes) := by
  cases allowance with
  | zero => rfl
  | succ allowance =>
    rw [within_succ_succ]
    exact h allowance

theorem read_tokens {tokens : List Token}
    (h : ∀ allowance, readAll (reader allowance).token (tokensToJson tokens) =
      within (depthOfItems (tokensToJson tokens)) allowance (bareTokens tokens)) :
    (reader allowance).tokens (.array (tokensToJson tokens)) =
      within (depthOfItems (tokensToJson tokens) + 1) allowance (bareTokens tokens) := by
  cases allowance with
  | zero => rfl
  | succ allowance =>
    rw [within_succ_succ]
    exact h allowance

theorem read_trivias {trivias : List Trivia}
    (h : ∀ allowance, readAll (reader allowance).trivia (triviaToJson trivias) =
      within (depthOfItems (triviaToJson trivias)) allowance (bareTrivia trivias)) :
    (reader allowance).trivias (.array (triviaToJson trivias)) =
      within (depthOfItems (triviaToJson trivias) + 1) allowance (bareTrivia trivias) := by
  cases allowance with
  | zero => rfl
  | succ allowance =>
    rw [within_succ_succ]
    exact h allowance

theorem read_separated {elements : List Node} {separators : List Token}
    (he : ∀ allowance, readAll (reader allowance).node (nodesToJson elements) =
      within (depthOfItems (nodesToJson elements)) allowance (bareNodes elements))
    (hs : ∀ allowance, readAll (reader allowance).token (tokensToJson separators) =
      within (depthOfItems (tokensToJson separators)) allowance (bareTokens separators)) :
    (reader allowance).separated (Slot.separated ⟨elements, separators⟩).toJson =
      within (Slot.separated ⟨elements, separators⟩).toJson.depth allowance
        ⟨bareNodes elements, bareTokens separators⟩ := by
  cases allowance with
  | zero => rfl
  | succ allowance =>
    have hrecord := record?_object (show List.map Prod.fst
      [("elements", Json.array (nodesToJson elements)),
        ("separators", Json.array (tokensToJson separators))] = ["elements", "separators"] from rfl)
      (by decide) 0
    simp only [Slot.toJson, depth, depthOfFields, within_succ_succ, Nat.max_zero, reader,
      Reader.opening]
    rw [hrecord]
    simp only [List.map_cons, List.map_nil]
    rw [read_nodes allowance he, read_tokens allowance hs]
    exact bind_within_within ..

theorem read_body {kind : Kind} {slots : Slots kind.fields}
    (h : ∀ allowance, (reader allowance).slots kind.fields
        (slots.toJson.map fun field => some field.2) =
      within (depthOfFields slots.toJson) allowance slots.bare) :
    (reader allowance).body kind (.object slots.toJson) =
      within (depthOfFields slots.toJson + 1) allowance (.mk {} kind slots.bare) := by
  cases allowance with
  | zero => rfl
  | succ allowance =>
    rw [within_succ_succ]
    simp only [reader, Reader.opening]
    rw [record?_object slots.map_fst_toJson kind.nodup_fieldNames]
    have := h allowance
    simp only [Option.bind_eq_bind, Option.bind_some, this]
    exact bind_within ..

theorem read_token_of {token : Token}
    (hl : ∀ allowance, readAll (reader allowance).trivia (triviaToJson token.leading) =
      within (depthOfItems (triviaToJson token.leading)) allowance (bareTrivia token.leading))
    (ht : ∀ allowance, readAll (reader allowance).trivia (triviaToJson token.trailing) =
      within (depthOfItems (triviaToJson token.trailing)) allowance (bareTrivia token.trailing)) :
    (reader allowance).token token.toJson = within token.toJson.depth allowance token.bare := by
  obtain ⟨label, kind, text, leading, trailing⟩ := token
  simp only [Token.leading, Token.trailing] at hl ht
  cases allowance with
  | zero => rfl
  | succ allowance =>
    have hrecord := record?_object (show List.map Prod.fst
      [("kind", Json.string kind.name), ("text", Json.string text),
        ("leading", Json.array (triviaToJson leading)),
        ("trailing", Json.array (triviaToJson trailing))] =
          ["kind", "text", "leading", "trailing"] from rfl) (by decide) 0
    simp only [Token.toJson, depth, depthOfFields, within_succ_succ, Nat.max_zero, Nat.zero_max,
      reader, Reader.opening]
    rw [hrecord]
    simp only [List.map_cons, List.map_nil, reader_choice, Option.bind_some,
      TokenKind.ofName?_name, Option.bind_eq_bind, text?]
    rw [read_trivias allowance hl, read_trivias allowance ht]
    exact bind_within_within ..

theorem read_trivia_of {trivia : Trivia}
    (h : ∀ inner, trivia.inner = some inner → ∀ allowance, (reader allowance).node inner.toJson =
      within inner.toJson.depth allowance inner.bare) :
    (reader allowance).trivia trivia.toJson = within trivia.toJson.depth allowance trivia.bare := by
  obtain ⟨label, kind, text, inner⟩ := trivia
  cases allowance with
  | zero => cases inner <;> rfl
  | succ allowance =>
    cases inner with
    | none =>
      have hrecord : record? ["kind", "text", "structure"] 1
          (.object [("kind", .string kind.name), ("text", .string text)]) =
            some [some (.string kind.name), some (.string text), none] := by
        simp [record?, List.lookup_cons]
      simp only [Trivia.toJson, depth, depthOfFields, within_succ_succ, Nat.max_zero, reader,
        Reader.opening]
      rw [hrecord]
      simp [reader_choice, TriviaKind.ofName?_name, text?, readOpt, Trivia.bare]
    | some inner =>
      have hrecord := record?_object (show List.map Prod.fst
        [("kind", Json.string kind.name), ("text", Json.string text),
          ("structure", inner.toJson)] = ["kind", "text", "structure"] from rfl) (by decide) 1
      have hinner := h inner rfl allowance
      simp only [Trivia.toJson, depth, depthOfFields, within_succ_succ, Nat.max_zero, Nat.zero_max,
        reader, Reader.opening]
      rw [hrecord]
      simp only [List.map_cons, List.map_nil, reader_choice, Option.bind_some,
        TriviaKind.ofName?_name, Option.bind_eq_bind, text?, readOpt_node, hinner, map_within]
      exact bind_within ..

end Read

open Json in
mutual

/-- With any allowance exactly the trees within it are read. -/
theorem read_node : (node : Node) → (allowance : Nat) →
    (reader allowance).node node.toJson = within node.toJson.depth allowance node.bare
  | .mk _ kind slots, 0 => rfl
  | .mk _ kind slots, allowance + 1 => by
    have hbody := read_body allowance (read_slots slots)
    simp only [Node.toJson, depth, depthOfFields, within_succ_succ, Nat.max_zero]
    simp only [reader, Reader.opening, Kind.ofName?_name, Option.bind_some, hbody]
    rfl

theorem read_slots : {fields : List Field} → (slots : Slots fields) → (allowance : Nat) →
    (reader allowance).slots fields (slots.toJson.map fun field => some field.2) =
      within (depthOfFields slots.toJson) allowance slots.bare
  | _, .nil, _ => rfl
  | field :: _, .cons slot rest, allowance => by
    rw [Slots.toJson, List.map_cons, Reader.slots_cons, read_slot slot allowance,
      read_slots rest allowance]
    exact bind_within_within ..

theorem read_slot : {shape : Shape} → (slot : Slot shape) → (allowance : Nat) →
    (reader allowance).slot shape (some slot.toJson) =
      within slot.toJson.depth allowance slot.bare
  | _, .node child, allowance => by
    simp only [Slot.toJson, Reader.slot, Option.bind_some, read_node child, map_within, Slot.bare]
  | _, .optNode none, _ => rfl
  | _, .optNode (some child), allowance => by
    simp only [Slot.toJson, Reader.slot, readOpt_node, read_node child, map_within, Slot.bare]
  | _, .token child, allowance => by
    simp only [Slot.toJson, Reader.slot, Option.bind_some, read_token child, map_within, Slot.bare]
  | _, .optToken none, _ => rfl
  | _, .optToken (some child), allowance => by
    simp only [Slot.toJson, Reader.slot, readOpt_token, read_token child, map_within, Slot.bare]
  | _, .nodes children, allowance => by
    simp only [Slot.toJson, Reader.slot, Option.bind_some,
      read_nodes allowance (readAll_nodes children), map_within, Slot.bare, depth]
  | _, .tokens children, allowance => by
    simp only [Slot.toJson, Reader.slot, Option.bind_some,
      read_tokens allowance (readAll_tokens children), map_within, Slot.bare, depth]
  | _, .separated ⟨elements, separators⟩, allowance => by
    rw [Reader.slot, Option.bind_some,
      read_separated allowance (readAll_nodes elements) (readAll_tokens separators), map_within,
      Slot.bare]

theorem readAll_nodes : (nodes : List Node) → (allowance : Nat) →
    readAll (reader allowance).node (nodesToJson nodes) =
      within (depthOfItems (nodesToJson nodes)) allowance (bareNodes nodes)
  | [], _ => rfl
  | node :: rest, allowance => by
    rw [nodesToJson, readAll_cons, read_node node, readAll_nodes rest]
    exact bind_within_within ..

theorem read_token : (token : Token) → (allowance : Nat) →
    (reader allowance).token token.toJson = within token.toJson.depth allowance token.bare
  | .mk _ _ _ leading trailing, allowance =>
    read_token_of allowance (readAll_trivia leading) (readAll_trivia trailing)

theorem readAll_tokens : (tokens : List Token) → (allowance : Nat) →
    readAll (reader allowance).token (tokensToJson tokens) =
      within (depthOfItems (tokensToJson tokens)) allowance (bareTokens tokens)
  | [], _ => rfl
  | token :: rest, allowance => by
    rw [tokensToJson, readAll_cons, read_token token, readAll_tokens rest]
    exact bind_within_within ..

theorem read_trivia : (trivia : Trivia) → (allowance : Nat) →
    (reader allowance).trivia trivia.toJson = within trivia.toJson.depth allowance trivia.bare
  | .mk _ _ _ none, allowance => read_trivia_of allowance fun _ h => nomatch h
  | .mk _ _ _ (some tree), allowance =>
    read_trivia_of allowance fun _ h allowance =>
      Option.some.inj h ▸ read_node tree allowance

theorem readAll_trivia : (trivias : List Trivia) → (allowance : Nat) →
    readAll (reader allowance).trivia (triviaToJson trivias) =
      within (depthOfItems (triviaToJson trivias)) allowance (bareTrivia trivias)
  | [], _ => rfl
  | trivia :: rest, allowance => by
    rw [triviaToJson, readAll_cons, read_trivia trivia, readAll_trivia rest]
    exact bind_within_within ..

end

theorem Node.ofText?_compact (tree : Node) :
    Node.ofText? tree.toJson.compact = Json.within tree.toJson.depth 127 tree.bare := by
  rw [Node.ofText?, Json.parse?_compact tree.toJson_isProper]
  exact read_node tree 127

theorem Node.ofText?_pretty (tree : Node) (level : Nat) :
    Node.ofText? (tree.toJson.pretty level ++ "\n") =
      Json.within tree.toJson.depth 127 tree.bare := by
  rw [Node.ofText?, Json.parse?_pretty tree.toJson_isProper]
  exact read_node tree 127

/-- Written in either form, a tree of depth at most 127 is read back as an equal tree that is
written the same; a deeper one is not read. -/
theorem Node.ofText?_toJson (tree : Node) :
    (tree.toJson.depth ≤ 127 → ∃ result,
      Node.ofText? tree.toJson.compact = some result ∧
      Node.ofText? (tree.toJson.pretty 0 ++ "\n") = some result ∧
      result.equal tree = true ∧
      result.toJson.compact = tree.toJson.compact ∧
      result.toJson.pretty 0 = tree.toJson.pretty 0) ∧
    (128 ≤ tree.toJson.depth →
      Node.ofText? tree.toJson.compact = none ∧
      Node.ofText? (tree.toJson.pretty 0 ++ "\n") = none) := by
  rw [tree.ofText?_compact, tree.ofText?_pretty]
  constructor
  · intro hdepth
    have hwithin : Json.within tree.toJson.depth 127 tree.bare = some tree.bare := if_pos hdepth
    refine ⟨tree.bare, hwithin, hwithin, tree.equal_bare, ?_, ?_⟩
    · rw [tree.toJson_bare]
    · rw [tree.toJson_bare]
  · intro hdepth
    have hwithin : Json.within tree.toJson.depth 127 tree.bare = none := if_neg (by omega)
    exact ⟨hwithin, hwithin⟩

/-- The name `x` in so many pairs of parentheses. -/
def Node.inParens : Nat → Node
  | 0 => Build.identifierName "x"
  | n + 1 => Build.parenthesized (Node.inParens n)

theorem Node.depth_inParens (n : Nat) : (Node.inParens n).toJson.depth = 2 * n + 4 := by
  induction n with
  | zero => decide
  | succ n ih =>
    have hdepth : (Node.inParens (n + 1)).toJson.depth =
        max 2 (max (Node.inParens n).toJson.depth 2) + 2 := by
      simp [Node.inParens, Build.parenthesized, Build.punctuation, Token.ofText, Node.toJson,
        Slots.toJson, Slot.toJson, Token.toJson, triviaToJson, Json.depth, Json.depthOfFields,
        Json.depthOfItems]
    omega

/-- The last tree of these that can be read, and the first that cannot. -/
theorem Node.ofText?_inParens :
    (∃ result, Node.ofText? (Node.inParens 61).toJson.compact = some result ∧
      result.equal (Node.inParens 61) = true) ∧
    Node.ofText? (Node.inParens 62).toJson.compact = none := by
  have hlast : (Node.inParens 61).toJson.depth ≤ 127 := by
    have := Node.depth_inParens 61
    omega
  have hfirst : 128 ≤ (Node.inParens 62).toJson.depth := by
    have := Node.depth_inParens 62
    omega
  obtain ⟨result, hread, -, hequal, -⟩ := (Node.ofText?_toJson (Node.inParens 61)).1 hlast
  exact ⟨⟨result, hread, hequal⟩, ((Node.ofText?_toJson (Node.inParens 62)).2 hfirst).1⟩

end SourceTree
