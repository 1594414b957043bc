import SourceTree.Proofs.Usings.Normalizer

/-!
The canonical list of using directives: the first directive for each key, in strictly
increasing order. A list of directives has one canonical list, so it does not matter whether
repeated directives are dropped before sorting or after it. Sorting alone moves no directive
past another with the same key.
-/
namespace SourceTree

namespace Usings

/-- A directive with this key. -/
def hasKey (key : UsingKey) (entry : Node) : Bool := entry.usingKey? == some key

theorem hasKey_iff {key : UsingKey} {entry : Node} :
    hasKey key entry = true ↔ entry.usingKey? = some key :=
  beq_iff_eq

/-! ### Directives with one key -/

/-- An entry passes no other with its key. -/
theorem filter_insertBack (key : UsingKey) (x : Node) (sorted : List Node) :
    (insertBack x sorted).filter (hasKey key) = (x :: sorted).filter (hasKey key) := by
  induction sorted with
  | nil => rfl
  | cons y rest ih =>
    rw [insertBack]
    split
    · rename_i hless
      have hkeys : hasKey key x = true → hasKey key y = false := by
        intro hx
        rw [Bool.eq_false_iff, Ne, hasKey_iff, ← hasKey_iff.mp hx]
        exact (ne_key_of_less hless).symm
      rw [List.filter_cons, ih, List.filter_cons, List.filter_cons, List.filter_cons]
      cases hx : hasKey key x with
      | false => rfl
      | true => simp [hkeys hx]
    · rfl

theorem filter_foldl_insertBack (key : UsingKey) (usings sorted : List Node) :
    (usings.foldl (fun sorted x => insertBack x sorted) sorted).filter (hasKey key) =
      (usings.filter (hasKey key)).reverse ++ sorted.filter (hasKey key) := by
  induction usings generalizing sorted with
  | nil => rfl
  | cons x rest ih =>
    rw [List.foldl_cons, ih, filter_insertBack, List.filter_cons, List.filter_cons]
    cases hasKey key x <;> simp

/-- Sorting is stable. -/
theorem filter_sort (key : UsingKey) (usings : List Node) :
    (sort usings).filter (hasKey key) = usings.filter (hasKey key) := by
  rw [sort, List.filter_reverse, filter_foldl_insertBack, List.filter_nil, List.append_nil,
    List.reverse_reverse]

theorem find?_sort (key : UsingKey) (usings : List Node) :
    (sort usings).find? (hasKey key) = usings.find? (hasKey key) := by
  rw [← List.head?_filter, filter_sort, List.head?_filter]

theorem find?_dedupeFrom {key : UsingKey} {seen : List UsingKey} (h : key ∉ seen)
    (usings : List Node) :
    (dedupeFrom seen usings).find? (hasKey key) = usings.find? (hasKey key) := by
  induction usings generalizing seen with
  | nil => rfl
  | cons entry rest ih =>
    cases hentry : entry.usingKey? with
    | none =>
      have hother : hasKey key entry = false := by simp [hasKey, hentry]
      simp only [dedupeFrom, hentry, List.find?_cons, hother, ih h]
    | some found =>
      by_cases hfound : found = key
      · subst hfound
        have hself : hasKey found entry = true := hasKey_iff.mpr hentry
        simp only [dedupeFrom, hentry, if_neg h, List.find?_cons, hself]
      · have hother : hasKey key entry = false := by simp [hasKey, hentry, hfound]
        simp only [dedupeFrom, hentry, List.find?_cons, hother]
        split
        · exact ih h
        · rw [List.find?_cons, hother]
          exact ih fun hmem => (List.mem_cons.mp hmem).elim (fun heq => hfound heq.symm) h

/-- The first directive for each key stays. -/
theorem find?_dedupe (key : UsingKey) (usings : List Node) :
    (dedupe usings).find? (hasKey key) = usings.find? (hasKey key) :=
  find?_dedupeFrom List.not_mem_nil usings

/-! ### Sorted lists -/

/-- The same objects in the order of their keys; where keys are equal, in the order in which
they were. -/
structure StablySorted (before after : List Node) : Prop where
  perm : after.Perm before
  ordered : areOrdered after = true
  stable : ∀ key, after.filter (hasKey key) = before.filter (hasKey key)

theorem stablySorted_sort {usings : List Node} (h : areDirectives usings = true) :
    StablySorted usings (sort usings) :=
  ⟨sort_perm usings, areOrdered_sort h, fun key => filter_sort key usings⟩

/-! ### Canonical lists -/

/-- Directives with strictly increasing keys. Each is the first directive with its key in
`before`, and no key of `before` is left out. -/
structure Canonical (before after : List Node) : Prop where
  increasing : areIncreasing after = true
  first : ∀ key, after.find? (hasKey key) = before.find? (hasKey key)

theorem nodup_of_increasing {usings : List Node} (h : areIncreasing usings = true) :
    usings.Nodup := by
  refine (areIncreasing_iff.mp h).2.imp fun {a b} hless heq => ?_
  exact ne_key_of_less hless (congrArg Node.usingKey? heq)

/-- Where keys increase, a directive is the first with its key. -/
theorem find?_of_increasing {usings : List Node} (h : areIncreasing usings = true) {entry : Node}
    {key : UsingKey} (hmem : entry ∈ usings) (hkey : entry.usingKey? = some key) :
    usings.find? (hasKey key) = some entry := by
  obtain ⟨before, after, rfl⟩ := List.append_of_mem hmem
  refine List.find?_eq_some_iff_append.mpr ⟨hasKey_iff.mpr hkey, before, after, rfl, ?_⟩
  intro other ho
  have hless : less other entry = true :=
    (List.pairwise_append.mp (areIncreasing_iff.mp h).2).2.2 other ho entry List.mem_cons_self
  rw [Bool.not_eq_true', Bool.eq_false_iff, Ne, hasKey_iff, ← hkey]
  exact ne_key_of_less hless

namespace Canonical

variable {usings first second : List Node}

theorem subset (h : Canonical usings first) (h' : Canonical usings second) {entry : Node}
    (hmem : entry ∈ first) : entry ∈ second := by
  obtain ⟨key, hkey⟩ := exists_key_of_mem (areIncreasing_iff.mp h.increasing).1 hmem
  have hfirst : usings.find? (hasKey key) = some entry :=
    (h.first key).symm.trans (find?_of_increasing h.increasing hmem hkey)
  exact List.mem_of_find?_eq_some ((h'.first key).trans hfirst)

/-- A list has one canonical list at most. -/
theorem unique (h : Canonical usings first) (h' : Canonical usings second) : first = second := by
  have hperm : first.Perm second :=
    (List.perm_ext_iff_of_nodup (nodup_of_increasing h.increasing)
      (nodup_of_increasing h'.increasing)).mpr fun _ => ⟨h.subset h', h'.subset h⟩
  refine hperm.eq_of_pairwise (fun a b _ _ hab hba => ?_) (areIncreasing_iff.mp h.increasing).2
    (areIncreasing_iff.mp h'.increasing).2
  rw [not_less_of_less hab] at hba
  exact absurd hba Bool.false_ne_true

end Canonical

theorem canonical_normalize {usings : List Node} (h : areDirectives usings = true) :
    Canonical usings (normalize usings) where
  increasing := areIncreasing_normalize h
  first key := (find?_sort key _).trans (find?_dedupe key usings)

theorem canonical_dedupe_sort {usings : List Node} (h : areDirectives usings = true) :
    Canonical usings (dedupe (sort usings)) where
  increasing := by
    have hsort : areDirectives (sort usings) = true := (areDirectives_sort usings).trans h
    have hsublist := dedupeFrom_sublist [] (sort usings)
    refine areIncreasing_of_ordered (areDirectives_dedupe hsort) ?_ (pairwise_dedupeFrom [] hsort).1
    exact areOrdered_iff.mpr ((areOrdered_iff.mp (areOrdered_sort h)).sublist hsublist)
  first key := (find?_dedupe key _).trans (find?_sort key usings)

end Usings

/-! ### Nodes with usings -/

namespace Node

/-- Two nodes of one kind that differ in their labels and in one field at most. -/
structure SameBeside (target : Field) (before after : Node) : Prop where
  kind_eq : after.kind = before.kind
  metadata_eq : after.metadata = before.metadata
  get?_eq : ∀ other, other ≠ target → after.get? other = before.get? other

theorem sameBeside_withUsings (node : Node) (usings : List Node) :
    node.SameBeside ⟨"usings", .nodes⟩ (node.withUsings usings) := by
  cases node with
  | mk info kind slots =>
    exact ⟨rfl, rfl, fun other hother => slots.get?_set_of_ne _ hother⟩

theorem withUsings_withUsings (node : Node) (first second : List Node) :
    (node.withUsings first).withUsings second = node.withUsings second := by
  cases node with
  | mk info kind slots =>
    exact congrArg (Node.mk { metadata := info.metadata } kind) (slots.set_set _ _)

theorem mapUsings_of_usings? {node : Node} {usings : List Node} (h : node.usings? = some usings)
    (f : List Node → List Node) : node.mapUsings f = node.withUsings (f usings) := by
  rw [mapUsings, h]

theorem mapUsings_mapUsings {node : Node} {usings : List Node} (h : node.usings? = some usings)
    (f g : List Node → List Node) :
    (node.mapUsings f).mapUsings g = node.withUsings (g (f usings)) := by
  rw [mapUsings_of_usings? h, mapUsings_of_usings? (usings?_withUsings h _), withUsings_withUsings]

theorem exists_usings {node : Node}
    (h : node.kind = .compilationUnit ∨ node.kind = .namespaceDeclaration) :
    ∃ usings, node.usings? = some usings := by
  have hfield : (⟨"usings", .nodes⟩ : Field) ∈ node.kind.fields := by
    rcases h with h | h <;> rw [h] <;> decide
  obtain ⟨content, hcontent⟩ := node.slots.exists_get? _ hfield
  cases content with
  | nodes usings => exact ⟨usings, usings?_eq_some_iff.mpr ⟨h, hcontent⟩⟩

/-- The usings of a compilation unit or namespace that holds directives only become their
canonical list, in whatever order they are sorted and freed of repeated ones. Nothing else
about the node changes, and a second time nothing at all. -/
theorem mapUsings_normalize_canonical {node : Node}
    (h : node.kind = .compilationUnit ∨ node.kind = .namespaceDeclaration)
    (hplain : node.usings?.all Usings.areDirectives = true) :
    ∃ usings, node.usings? = some usings ∧
      (∃ result, (node.mapUsings Usings.normalize).usings? = some result ∧
        Usings.Canonical usings result) ∧
      (∃ result, (node.mapUsings Usings.sort).usings? = some result ∧
        Usings.StablySorted usings result) ∧
      (node.mapUsings Usings.dedupe).mapUsings Usings.sort = node.mapUsings Usings.normalize ∧
      (node.mapUsings Usings.sort).mapUsings Usings.dedupe = node.mapUsings Usings.normalize ∧
      (node.mapUsings Usings.normalize).mapUsings Usings.normalize =
        node.mapUsings Usings.normalize ∧
      node.SameBeside ⟨"usings", .nodes⟩ (node.mapUsings Usings.normalize) := by
  obtain ⟨usings, husings⟩ := exists_usings h
  rw [husings, Option.all_some] at hplain
  have hcanonical := Usings.canonical_normalize hplain
  have hlate : Usings.dedupe (Usings.sort usings) = Usings.normalize usings :=
    (Usings.canonical_dedupe_sort hplain).unique hcanonical
  have hagain : Usings.normalize (Usings.normalize usings) = Usings.normalize usings :=
    Usings.normalize_eq_self hcanonical.increasing
  rw [mapUsings_mapUsings husings, mapUsings_mapUsings husings, mapUsings_mapUsings husings,
    hlate, hagain, mapUsings_of_usings? husings, mapUsings_of_usings? husings]
  exact ⟨usings, husings, ⟨_, usings?_withUsings husings _, hcanonical⟩,
    ⟨_, usings?_withUsings husings _, Usings.stablySorted_sort hplain⟩, rfl, rfl, rfl,
    sameBeside_withUsings node _⟩

/-- A namespace with `Zeta` twice, as two objects, and with names that start like `System`. -/
def crowdedNamespace : Node :=
  let name (text : String) : Node := .identifierName (Build.identifier text)
  let below (text : String) : Node :=
    .qualifiedName (name "System") (Build.punctuation ".") (name text)
  let directive (keyword : Option Token) (name : Node) (label : Nat) : Node :=
    .usingDirective (Build.keyword "using") keyword name (Build.punctuation ";") { label }
  .namespaceDeclaration (Build.keyword "namespace") (name "Demo") (Build.punctuation "\x7b")
    [directive none (name "Zeta") 0, directive (some (Build.keyword "static")) (below "Math") 1,
      directive none (name "SystemX") 2, directive none (below "Text") 3,
      directive none (name "Zeta") 4, directive none (name "System") 5]
    [] (Build.punctuation "\x7d") { metadata := .only "origin" (.flag true) }

/-- `SystemX` does not lie below `System`, and the first `Zeta` is the one that stays. -/
theorem mapUsings_normalize_crowded :
    crowdedNamespace.kind = .namespaceDeclaration ∧
    crowdedNamespace.usings?.all Usings.areDirectives = true ∧
    ((crowdedNamespace.mapUsings Usings.normalize).usings?.map (·.map Node.label)) =
      some [some 5, some 3, some 2, some 0, some 1] ∧
    (crowdedNamespace.mapUsings Usings.sort).mapUsings Usings.dedupe =
      crowdedNamespace.mapUsings Usings.normalize ∧
    (crowdedNamespace.mapUsings Usings.normalize).metadata = .only "origin" (.flag true) := by
  have hplain : crowdedNamespace.usings?.all Usings.areDirectives = true := by decide
  obtain ⟨usings, -, -, -, -, hlate, -, hsame⟩ := mapUsings_normalize_canonical (.inr rfl) hplain
  exact ⟨rfl, hplain, by decide, hlate, hsame.metadata_eq⟩

end Node

end SourceTree
