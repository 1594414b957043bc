import SourceTree.Proofs.Usings.Canonical

/-!
Using directives by their keys. A directive made for a text has that text as its name, whatever
dots are in it, so a name that was added is found again. Adding a name to a list of usings and
removing it act on the keys as on a set; entries that are no directives, and all directives for
other names, stay as they are.
-/
namespace SourceTree

/-! ### Dotted names -/

namespace Text

/-- The pieces of a text, joined again. -/
theorem intercalate_splitChars (separator : Char) (cs : List Char) :
    [separator].intercalate (splitChars separator cs) = cs := by
  induction cs with
  | nil => rfl
  | cons c cs ih =>
    obtain ⟨piece, pieces, hsplit⟩ := List.exists_cons_of_ne_nil (splitChars_ne_nil separator cs)
    rw [hsplit] at ih
    rw [splitChars, hsplit]
    by_cases hc : c = separator
    · rw [if_pos hc, List.intercalate_cons_cons, ih, hc]
      rfl
    · rw [if_neg hc]
      -- the character goes to the front of the first piece, which may be the only one
      cases pieces with
      | nil =>
        rw [List.intercalate_singleton] at ih ⊢
        rw [ih]
      | cons next pieces =>
        rw [List.intercalate_cons_cons] at ih ⊢
        rw [← ih]
        rfl

theorem intercalate_split (text : String) : String.intercalate "." (split '.' text) = text := by
  have hpieces : (split '.' text).map String.toList = splitChars '.' text.toList := by
    rw [split, List.map_map, show String.toList ∘ String.ofList = id from
      funext fun _ => String.toList_ofList, List.map_id]
  rw [← String.toList_inj, String.toList_intercalate, hpieces]
  exact intercalate_splitChars '.' text.toList

end Text

namespace Build

theorem nameText_identifierName (text : String) : (identifierName text).nameText = text := by
  simp [identifierName, identifier, Node.nameText, Slots.tokens, Slot.tokensIn, Token.ofText,
    Token.text]

theorem nameText_qualified (left : Node) (part : String) :
    (qualified left part).nameText = String.intercalate "." [left.nameText, part] := by
  simp only [qualified, Node.nameText, if_true, Slots.nameTexts, Slot.nameTexts,
    nameText_identifierName, List.append_nil, List.nil_append, List.cons_append]

theorem intercalate_append_head (separator first second : String) (rest : List String) :
    String.intercalate separator (String.intercalate separator [first, second] :: rest) =
      String.intercalate separator (first :: second :: rest) := by
  cases rest with
  | nil => simp
  | cons next rest => simp [String.intercalate_cons_cons, String.append_assoc]

/-- Parts put together from the left read as the parts with dots between them. -/
theorem nameText_foldl_qualified (left : Node) (parts : List String) :
    (parts.foldl qualified left).nameText = String.intercalate "." (left.nameText :: parts) := by
  induction parts generalizing left with
  | nil => simp
  | cons part parts ih =>
    rw [List.foldl_cons, ih, nameText_qualified, intercalate_append_head]

/-- A name reads as the text it was made from. -/
theorem nameText_name (text : String) : (name text).nameText = text := by
  have hjoin := Text.intercalate_split text
  rw [name, dotted]
  cases hsplit : Text.split '.' text with
  | nil =>
    rw [hsplit] at hjoin
    rw [nameText_identifierName, ← hjoin]
    rfl
  | cons first rest =>
    rw [hsplit] at hjoin
    simp only [nameText_foldl_qualified, nameText_identifierName, hjoin]

theorem usingKey?_usingDirective (text : String) :
    (usingDirective text).usingKey? = some ⟨false, text⟩ := by
  have hkey : (usingDirective text).usingKey? = some ⟨false, (name text).nameText⟩ := rfl
  rw [hkey, nameText_name]

end Build

/-! ### Keys of a list -/

namespace Usings

variable {name : String} {usings : List Node}

def keys (usings : List Node) : List UsingKey := usings.filterMap Node.usingKey?

/-- A directive for a name, plain or static. -/
def isFor (name : String) (entry : Node) : Bool :=
  hasKey ⟨false, name⟩ entry || hasKey ⟨true, name⟩ entry

theorem isFor_iff {entry : Node} :
    isFor name entry = true ↔ ∃ key, entry.usingKey? = some key ∧ key.name = name := by
  rw [isFor, Bool.or_eq_true, hasKey_iff, hasKey_iff]
  constructor
  · rintro (h | h)
    · exact ⟨_, h, rfl⟩
    · exact ⟨_, h, rfl⟩
  · rintro ⟨⟨static, _⟩, h, rfl⟩
    cases static with
    | false => exact .inl h
    | true => exact .inr h

theorem any_hasKey_iff (key : UsingKey) :
    (usings.any fun entry => entry.usingKey? == some key) = true ↔ key ∈ keys usings := by
  simp [keys]

theorem add_of_mem (h : ⟨false, name⟩ ∈ keys usings) : add name usings = usings := by
  rw [add, if_pos ((any_hasKey_iff _).mpr h)]

theorem add_of_not_mem (h : ⟨false, name⟩ ∉ keys usings) :
    add name usings = usings ++ [Build.usingDirective name] := by
  rw [add, if_neg (fun hany => h ((any_hasKey_iff _).mp hany)), addDirective]

theorem add_eq_append (name : String) (usings : List Node) :
    ∃ added, add name usings = usings ++ added ∧ (⟨false, name⟩ ∈ keys usings → added = []) ∧
      (⟨false, name⟩ ∉ keys usings → added = [Build.usingDirective name]) := by
  by_cases h : ⟨false, name⟩ ∈ keys usings
  · exact ⟨[], by rw [add_of_mem h, List.append_nil], fun _ => rfl, fun hnot => absurd h hnot⟩
  · exact ⟨_, add_of_not_mem h, fun hin => absurd hin h, fun _ => rfl⟩

/-- Adding a name adds one key to the set. -/
theorem mem_keys_add {key : UsingKey} :
    key ∈ keys (add name usings) ↔ key = ⟨false, name⟩ ∨ key ∈ keys usings := by
  by_cases h : ⟨false, name⟩ ∈ keys usings
  · rw [add_of_mem h]
    exact ⟨.inr, fun hkey => hkey.elim (fun heq => heq ▸ h) id⟩
  · have hnew : keys [Build.usingDirective name] = [⟨false, name⟩] := by
      rw [keys, List.filterMap_cons_some (Build.usingKey?_usingDirective name), List.filterMap_nil]
    rw [add_of_not_mem h, keys, List.filterMap_append, List.mem_append]
    change _ ∨ key ∈ keys [Build.usingDirective name] ↔ _
    rw [hnew, List.mem_singleton, or_comm]
    rfl

theorem add_add : add name (add name usings) = add name usings :=
  add_of_mem (mem_keys_add.mpr (.inl rfl))

theorem remove_eq_filter : remove name usings = usings.filter fun entry => !isFor name entry := by
  refine List.filter_congr fun entry _ => ?_
  rw [Bool.eq_iff_iff, Bool.not_eq_true', Bool.eq_false_iff, Ne, isFor_iff]
  cases entry.usingKey? with
  | none => simp
  | some key => simp

/-- Removing a name takes both of its keys out of the set. -/
theorem mem_keys_remove {key : UsingKey} :
    key ∈ keys (remove name usings) ↔ key ∈ keys usings ∧ key.name ≠ name := by
  simp only [remove_eq_filter, keys, List.mem_filterMap, List.mem_filter, Bool.not_eq_true',
    Bool.eq_false_iff, Ne, isFor_iff]
  constructor
  · rintro ⟨entry, ⟨hentry, hother⟩, hkey⟩
    exact ⟨⟨entry, hentry, hkey⟩, fun hname => hother ⟨key, hkey, hname⟩⟩
  · rintro ⟨⟨entry, hentry, hkey⟩, hname⟩
    refine ⟨entry, ⟨hentry, ?_⟩, hkey⟩
    rintro ⟨other, hother, rfl⟩
    rw [hkey] at hother
    exact hname (congrArg UsingKey.name (Option.some.inj hother))

/-- What was added is removed again. -/
theorem remove_add : remove name (add name usings) = remove name usings := by
  by_cases h : ⟨false, name⟩ ∈ keys usings
  · rw [add_of_mem h]
  · have hnew : isFor name (Build.usingDirective name) = true :=
      isFor_iff.mpr ⟨_, Build.usingKey?_usingDirective name, rfl⟩
    rw [add_of_not_mem h, remove_eq_filter, remove_eq_filter, List.filter_append,
      List.filter_cons_of_neg (by simp [hnew]), List.filter_nil, List.append_nil]

end Usings

/-! ### Nodes with usings -/

namespace Node

/-- Adding a name to the usings of a compilation unit or namespace leaves every entry where it is
and puts a new one at the end only if there is no plain directive for the name. Removing a name
takes out its directives and nothing else. -/
theorem mapUsings_add_remove {node : Node}
    (h : node.kind = .compilationUnit ∨ node.kind = .namespaceDeclaration) (name : String) :
    ∃ usings, node.usings? = some usings ∧
      (∃ added, (node.mapUsings (Usings.add name)).usings? = some (usings ++ added) ∧
        (∀ key, key ∈ Usings.keys (usings ++ added) ↔
          key = ⟨false, name⟩ ∨ key ∈ Usings.keys usings) ∧
        (⟨false, name⟩ ∈ Usings.keys usings → added = []) ∧
        (⟨false, name⟩ ∉ Usings.keys usings → added = [Build.usingDirective name])) ∧
      (node.mapUsings (Usings.add name)).mapUsings (Usings.add name) =
        node.mapUsings (Usings.add name) ∧
      (∃ kept, (node.mapUsings (Usings.remove name)).usings? = some kept ∧
        kept = usings.filter (fun entry => !Usings.isFor name entry) ∧
        ∀ key, key ∈ Usings.keys kept ↔ key ∈ Usings.keys usings ∧ key.name ≠ name) ∧
      (node.mapUsings (Usings.add name)).mapUsings (Usings.remove name) =
        node.mapUsings (Usings.remove name) ∧
      node.SameBeside ⟨"usings", .nodes⟩ (node.mapUsings (Usings.add name)) ∧
      node.SameBeside ⟨"usings", .nodes⟩ (node.mapUsings (Usings.remove name)) := by
  obtain ⟨usings, husings⟩ := exists_usings h
  obtain ⟨added, hadded, hpresent, habsent⟩ := Usings.add_eq_append name usings
  rw [mapUsings_mapUsings husings, mapUsings_mapUsings husings, Usings.add_add, Usings.remove_add,
    mapUsings_of_usings? husings, mapUsings_of_usings? husings, usings?_withUsings husings,
    usings?_withUsings husings]
  refine ⟨usings, husings, ⟨added, by rw [hadded], fun key => ?_, hpresent, habsent⟩, rfl,
    ⟨_, rfl, Usings.remove_eq_filter, fun key => Usings.mem_keys_remove⟩, rfl,
    sameBeside_withUsings node _, sameBeside_withUsings node _⟩
  rw [← hadded]
  exact Usings.mem_keys_add

/-- A unit with a name that ends in a dot, as a static directive, and with a node that is no
directive. -/
def mixedUnit : Node :=
  let name (text : String) : Node := .identifierName (Build.identifier text)
  let directive (keyword : Option Token) (name : Node) (label : Nat) : Node :=
    .usingDirective (Build.keyword "using") keyword name (Build.punctuation ";") { label }
  .compilationUnit
    [directive none (name "A") 0,
      directive (some (Build.keyword "static"))
        (.qualifiedName (name "A") (Build.punctuation ".") (name "")) 1,
      .identifierName (Build.identifier "A.") { label := some 2 }]
    [] Build.endOfFile

/-- The static directive does not keep the plain one from being added, but both go. -/
theorem mapUsings_add_remove_mixed :
    mixedUnit.kind = .compilationUnit ∧
      (∃ usings, mixedUnit.usings? = some usings ∧ ⟨false, "A."⟩ ∉ Usings.keys usings ∧
        (mixedUnit.mapUsings (Usings.add "A.")).usings? =
          some (usings ++ [Build.usingDirective "A."])) ∧
      (mixedUnit.mapUsings (Usings.add "A.")).mapUsings (Usings.remove "A.") =
        mixedUnit.mapUsings (Usings.remove "A.") ∧
      ((mixedUnit.mapUsings (Usings.remove "A.")).usings?.map (·.map Node.label)) =
        some [some 0, some 2] := by
  have hkind : mixedUnit.kind = .compilationUnit ∨ mixedUnit.kind = .namespaceDeclaration :=
    .inl rfl
  obtain ⟨usings, husings, ⟨added, hadd, -, -, hnew⟩, -, -, hremove, -⟩ :=
    mapUsings_add_remove hkind "A."
  have hkeys : mixedUnit.usings?.map Usings.keys = some [⟨false, "A"⟩, ⟨true, "A."⟩] := by decide
  have hmem : ⟨false, "A."⟩ ∉ Usings.keys usings := by
    rw [husings, Option.map_some, Option.some.injEq] at hkeys
    rw [hkeys]
    decide
  rw [hnew hmem] at hadd
  exact ⟨rfl, ⟨usings, husings, hmem, hadd⟩, hremove, by decide⟩

end Node

end SourceTree
