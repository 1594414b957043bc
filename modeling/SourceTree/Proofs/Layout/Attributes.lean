import SourceTree.Proofs.Layout.Block

/-!
Attributes in a layout. A declaration among items writes each of its attribute lists on a line of
its own, and a parameter writes them in front of its type, so their texts are found in the layout
of the whole tree. A member of an enumeration does not write them: its line is that of the same
member without attributes.
-/
namespace SourceTree.Layout

/-! ### Texts in texts -/

/-- One text is found in another. -/
def Shows (text part : String) : Prop := part.toList <:+: text.toList

namespace Shows

variable {text part : String}

theorem refl (text : String) : Shows text text := List.infix_rfl

theorem trans {word : String} (h : Shows text part) (h' : Shows part word) : Shows text word :=
  List.IsInfix.trans h' h

theorem append_left (h : Shows text part) (front : String) : Shows (front ++ text) part := by
  rw [Shows, String.toList_append]
  exact List.IsInfix.trans h (List.suffix_append _ _).isInfix

theorem append_right (h : Shows text part) (back : String) : Shows (text ++ back) part := by
  rw [Shows, String.toList_append]
  exact List.IsInfix.trans h (List.prefix_append _ _).isInfix

theorem of_mem_join {texts : List String} (h : part ∈ texts) : Shows (String.join texts) part := by
  rw [Shows, String.toList_join]
  exact List.infix_of_mem_flatten (List.mem_map_of_mem h)

theorem of_mem_intercalate {texts : List String} (h : part ∈ texts) (separator : String) :
    Shows (String.intercalate separator texts) part := by
  induction texts with
  | nil => cases h
  | cons first rest ih =>
    cases rest with
    | nil =>
      obtain rfl := List.mem_singleton.mp h
      simpa using refl part
    | cons next rest =>
      rw [String.intercalate_cons_cons]
      rcases List.mem_cons.mp h with rfl | h
      · exact ((refl part).append_right _).append_right _
      · exact (ih h).append_left _

end Shows

theorem shows_render {line : Line} {lines : List Line} (h : line ∈ lines) (options : Options) :
    Shows (render options lines) line.text := by
  have hline : Shows (line.render options) line.text :=
    ((Shows.refl line.text).append_left _).append_right options.newline
  exact (Shows.of_mem_join (List.mem_map_of_mem h)).trans hline

/-! ### Fields -/

theorem name_mem_of_mem_nodesOf {name : String} {fields : List Field} {slots : Slots fields}
    {node : Node} (h : node ∈ nodesOf name slots) : name ∈ fields.map Field.name := by
  induction fields with
  | nil => cases slots; cases h
  | cons field fields ih =>
    cases slots with
    | cons slot rest =>
      rcases mem_nodesOf_cons.mp h with ⟨rfl, -⟩ | hrest
      · exact List.mem_cons_self
      · exact List.mem_cons_of_mem _ (ih hrest)

section Cons

variable {name : String} {field : Field} {fields : List Field} {slot : Slot field.shape}
  {rest : Slots fields} {node : Node}

theorem mem_of_mem_nodesOf (hrest : name ∉ fields.map Field.name)
    (h : node ∈ nodesOf name (.cons slot rest)) : node ∈ slot.elements.filterMap Element.node? := by
  rcases mem_nodesOf_cons.mp h with ⟨-, hslot⟩ | hmem
  · exact hslot
  · exact absurd (name_mem_of_mem_nodesOf hmem) hrest

theorem mem_rest_of_mem_nodesOf (hfield : field.name ≠ name)
    (h : node ∈ nodesOf name (.cons slot rest)) : node ∈ nodesOf name rest :=
  (mem_nodesOf_cons.mp h).resolve_left fun hslot => hfield hslot.1

end Cons

/-- The attribute lists of a declaration. -/
def attributeLists (node : Node) : List Node := nodesOf "attribute_lists" node.slots

/-- Attribute lists come first where there are any, and no other field has their name. -/
theorem mem_of_mem_attributeLists {fields : List Field} {attributes : List Node}
    {rest : Slots fields} {list : Node} (hrest : "attribute_lists" ∉ fields.map Field.name)
    (h : list ∈ nodesOf "attribute_lists"
      (@Slots.cons ⟨"attribute_lists", .nodes⟩ fields (.nodes attributes) rest)) :
    list ∈ attributes := by
  simpa using mem_of_mem_nodesOf hrest h

theorem mem_attributeLines {list : Node} {attributes : List Node} (h : list ∈ attributes)
    (level : Nat) : ⟨level, (look list).inline⟩ ∈ attributeLines (looks attributes) level := by
  rw [attributeLines, looks_eq_map, List.map_map]
  exact List.mem_map.mpr ⟨list, h, rfl⟩

/-- What is written within a line has a line of its own among items. -/
theorem mem_item_of_line {node : Node} (h : place node.kind = .line) (level : Nat) :
    ⟨level, (look node).inline⟩ ∈ (look node).item level := by
  obtain ⟨info, kind, slots⟩ := node
  have hitem : place kind ≠ .item := by rw [show place kind = .line from h]; simp
  have hstatement : place kind ≠ .statement := by rw [show place kind = .line from h]; simp
  simp only [look, Look.ofSlots, itemOf_of_place hitem, statementOf_of_place hstatement]
  exact List.mem_append_right _ List.mem_cons_self

/-! ### Parameters -/

/-- A parameter writes its attributes in front of everything else. -/
theorem shows_attribute {parameter list : Node} (hkind : parameter.kind = .parameter)
    (h : list ∈ attributeLists parameter) : Shows (look parameter).inline (look list).inline := by
  obtain ⟨info, kind, slots⟩ := parameter
  obtain rfl : kind = .parameter := hkind
  cases_type* Slots Slot
  rename_i attributes _ _ _ _
  have hlist : list ∈ attributes := mem_of_mem_attributeLists (by decide) h
  have hword : (look list).inline ++ " " ∈
      (looks attributes).map fun list => list.inline ++ " " := by
    rw [looks_eq_map, List.map_map]
    exact List.mem_map.mpr ⟨list, hlist, rfl⟩
  have hfront := (Shows.of_mem_join hword).trans ((Shows.refl _).append_right " ")
  simp only [look, Look.ofSlots, slotLooks, slotLook_optNode]
  exact ((((hfront.append_right _).append_right _).append_right _).append_right _).append_right _

/-- The parameters of a parameter list. -/
def parameters (list : Node) : List Node := nodesOf "parameters" list.slots

theorem shows_parameter {list parameter : Node} (hkind : list.kind = .parameterList)
    (h : parameter ∈ parameters list) : Shows (look list).inline (look parameter).inline := by
  obtain ⟨info, kind, slots⟩ := list
  obtain rfl : kind = .parameterList := hkind
  cases_type* Slots Slot
  rename_i _ items _
  have hmem := mem_of_mem_nodesOf (by decide) (mem_rest_of_mem_nodesOf (by decide) h)
  rw [Slot.filterMap_elements_separated] at hmem
  have hword : (look parameter).inline ∈ (looks items.elements).map Look.inline := by
    rw [looks_eq_map, List.map_map]
    exact List.mem_map.mpr ⟨parameter, hmem, rfl⟩
  exact ((Shows.of_mem_intercalate hword ", ").append_left "(").append_right ")"

theorem exists_line_of_header {header part : String} (body : Option Look) (level : Nat)
    (h : Shows header part) : ∃ line ∈ bodyLines level header body, Shows line.text part := by
  cases body with
  | none => exact ⟨_, List.mem_cons_self, h.append_right ";"⟩
  | some body => exact ⟨_, List.mem_cons_self, h⟩

/-- A method or constructor writes its parameters in its header. -/
theorem exists_line_of_parameterList {owner list : Node}
    (h : list ∈ nodesOf "parameter_list" owner.slots) (level : Nat) :
    ∃ line ∈ (look owner).item level, Shows line.text (look list).inline := by
  obtain ⟨info, kind, slots⟩ := owner
  have hname : "parameter_list" ∈ kind.fields.map Field.name := name_mem_of_mem_nodesOf h
  cases kind with
  | methodDeclaration | constructorDeclaration =>
    cases_type* Slots Slot
    rename_i parameters body _
    repeat replace h := mem_rest_of_mem_nodesOf (by decide) h
    obtain rfl : list = parameters := by simpa using mem_of_mem_nodesOf (by decide) h
    obtain ⟨line, hline, hshows⟩ := exists_line_of_header (body.map look) level
      ((Shows.refl (look list).inline).append_left _)
    refine ⟨line, ?_, hshows⟩
    simp only [look, Look.ofSlots, slotLooks, slotLook_optNode]
    exact List.mem_append_right _ hline
  | _ => exact absurd hname (by decide)

/-! ### Declarations -/

theorem exists_line_of_attribute {owner list : Node} (h : list ∈ attributeLists owner)
    (hkind : owner.kind ≠ .enumMemberDeclaration) (level : Nat) :
    ∃ line ∈ (look owner).item level, Shows line.text (look list).inline := by
  obtain ⟨info, kind, slots⟩ := owner
  have hname : "attribute_lists" ∈ kind.fields.map Field.name := name_mem_of_mem_nodesOf h
  cases kind with
  | classDeclaration | interfaceDeclaration | enumDeclaration | methodDeclaration
  | constructorDeclaration | propertyDeclaration | fieldDeclaration =>
    cases_type* Slots Slot
    have hlist := mem_of_mem_attributeLists (by decide) h
    refine ⟨⟨level, (look list).inline⟩, ?_, Shows.refl _⟩
    simp only [look, Look.ofSlots, slotLooks, slotLook_optNode, slotLook_nodes, slotLook_separated]
    exact List.mem_append_left _ (List.mem_append_right _ (mem_attributeLines hlist level))
  | parameter => exact ⟨_, mem_item_of_line rfl level, shows_attribute rfl h⟩
  | enumMemberDeclaration => exact absurd rfl hkind
  | _ => exact absurd hname (by decide)

/-! ### Whole trees -/

/-- A parameter list is the root or one of the items of a tree, or belongs to a method or
constructor among them. -/
def HasParameters (root list : Node) : Prop :=
  list.kind = .parameterList ∧ (Stands root .item list ∨
    ∃ owner, Stands root .item owner ∧ list ∈ nodesOf "parameter_list" owner.slots)

/-- A declaration is the root of a tree or stands where declarations of its kind stand: among the
items, in an enumeration or in a parameter list. -/
inductive Placed (root : Node) : Node → Prop where
  | item {node : Node} (h : Stands root .item node) : Placed root node
  | entry {node : Node} (h : Stands root .entry node) (hkind : node.kind = .enumMemberDeclaration) :
      Placed root node
  | parameter {list node : Node} (h : HasParameters root list) (hnode : node ∈ parameters list)
      (hkind : node.kind = .parameter) : Placed root node

theorem Stands.mem_lines {root node : Node} (h : Stands root .item node) {part : String}
    (hlines : ∀ level, ∃ line ∈ (look node).item level, Shows line.text part) :
    ∃ line ∈ lines root, Shows line.text part := by
  obtain ⟨block, hblock, hall⟩ := h.occurs
  cases hblock with
  | item level =>
    obtain ⟨line, hline, hshows⟩ := hlines level
    exact ⟨line, hall.subset hline, hshows⟩

theorem HasParameters.exists_line {root list : Node} (h : HasParameters root list) :
    ∃ line ∈ lines root, Shows line.text (look list).inline := by
  obtain ⟨hkind, hstands | ⟨owner, howner, hlist⟩⟩ := h
  · refine hstands.mem_lines fun level => ⟨_, mem_item_of_line ?_ level, Shows.refl _⟩
    rw [hkind]
    rfl
  · exact howner.mem_lines fun level => exists_line_of_parameterList hlist level

theorem Placed.exists_line {root owner list : Node} (h : Placed root owner)
    (hkind : owner.kind ≠ .enumMemberDeclaration) (hlist : list ∈ attributeLists owner) :
    ∃ line ∈ lines root, Shows line.text (look list).inline := by
  cases h with
  | item h => exact h.mem_lines fun level => exists_line_of_attribute hlist hkind level
  | entry _ hmember => exact absurd hmember hkind
  | parameter h hnode hparameter =>
    obtain ⟨line, hline, hshows⟩ := h.exists_line
    exact ⟨line, hline,
      (hshows.trans (shows_parameter h.1 hnode)).trans (shows_attribute hparameter hlist)⟩

/-! ### Members of enumerations -/

/-- The declaration with no attribute lists. -/
def unadorned (node : Node) : Node := node.set ⟨"attribute_lists", .nodes⟩ (.nodes [])

theorem inline_unadorned {member : Node} (h : member.kind = .enumMemberDeclaration) :
    (look (unadorned member)).inline = (look member).inline := by
  obtain ⟨info, kind, slots⟩ := member
  obtain rfl : kind = .enumMemberDeclaration := h
  cases_type* Slots Slot Option
  all_goals rfl

theorem Placed.mem_lines {root member : Node} (h : Placed root member)
    (hkind : member.kind = .enumMemberDeclaration) :
    ∃ level comma, (comma = "," ∨ comma = "") ∧
      ⟨level, (look (unadorned member)).inline ++ comma⟩ ∈ lines root := by
  rw [inline_unadorned hkind]
  cases h with
  | item h =>
    obtain ⟨block, hblock, hall⟩ := h.occurs
    cases hblock with
    | item level =>
      have hline := mem_item_of_line (by rw [hkind]; rfl) level
      exact ⟨level, "", .inr rfl, by simpa using hall.subset hline⟩
  | entry h =>
    obtain ⟨block, hblock, hall⟩ := h.occurs
    cases hblock with
    | @entry level comma hcomma =>
      exact ⟨level, comma, hcomma, hall.subset (List.mem_append_right _ List.mem_cons_self)⟩
  | parameter _ _ hparameter => rw [hparameter] at hkind; cases hkind

/-! ### What is written -/

/-- The text of each attribute list of a declaration is found in the layout, under all options,
unless the declaration is a member of an enumeration. Such a member is written as if it had no
attributes. -/
theorem format_shows_attributes (root : Node) (options : Options) :
    (∀ owner, Placed root owner → owner.kind ≠ .enumMemberDeclaration →
      ∀ list ∈ attributeLists owner, Shows (format root options) (look list).inline) ∧
    ∀ member, Placed root member → member.kind = .enumMemberDeclaration →
      ∃ level comma, (comma = "," ∨ comma = "") ∧
        ⟨level, (look (unadorned member)).inline ++ comma⟩ ∈ lines root := by
  refine ⟨fun owner howner hkind list hlist => ?_, fun member h hkind => h.mem_lines hkind⟩
  obtain ⟨line, hline, hshows⟩ := howner.exists_line hkind hlist
  rw [format_eq_render]
  exact (shows_render hline options).trans hshows

/-- The attribute list `[A]`. -/
def attributeA : Node :=
  .attributeList (Build.punctuation "[")
    ⟨[.attributeItem (.identifierName (Build.identifier "A")) none], []⟩ (Build.punctuation "]")

def adornedMember : Node := .enumMemberDeclaration [attributeA] (Build.identifier "x") none

/-- An enumeration whose one member has that attribute. -/
def adornedEnum : Node :=
  .enumDeclaration [] [] (Build.keyword "enum") (Build.identifier "E") none
    (Build.punctuation "\x7b") ⟨[adornedMember], []⟩ (Build.punctuation "\x7d")

/-- The attribute of the member is lost. -/
theorem format_adornedEnum :
    Placed adornedEnum adornedMember ∧ attributeA ∈ attributeLists adornedMember ∧
      (look attributeA).inline = "[A]" ∧
      format adornedEnum .standard = "enum E\n\x7b\n    x\n\x7d\n" ∧
      ¬ Shows (format adornedEnum .standard) (look attributeA).inline := by
  have hmember : adornedMember ∈ nodesOf "members" adornedEnum.slots := List.mem_cons_self
  have hinline : (look attributeA).inline = "[A]" := by decide
  have hformat : format adornedEnum .standard = "enum E\n\x7b\n    x\n\x7d\n" := by decide
  refine ⟨.entry (.child .root hmember) rfl, List.mem_cons_self, hinline, hformat, fun h => ?_⟩
  rw [hinline, hformat] at h
  have hbracket : '[' ∈ "enum E\n\x7b\n    x\n\x7d\n".toList := h.subset (by simp)
  simp at hbracket

end SourceTree.Layout
