import SourceTree.Proofs.Usings.Sorter

/-!
Usings that hold other nodes besides directives. Sorting takes any other node to be level with
every entry, so no entry passes it: each stretch of directives between two other nodes is
sorted on its own. The directives of the whole list come out in order exactly if none of them
stood on the wrong side of another node.
-/
namespace SourceTree

theorem Node.usingKey?_eq_none_iff {node : Node} :
    node.usingKey? = none ↔ node.kind ≠ .usingDirective := by
  constructor
  · intro h hkind
    obtain ⟨key, hkey⟩ := Node.exists_usingKey hkind
    rw [h] at hkey
    cases hkey
  · intro h
    rw [Node.usingKey?, if_neg h]

namespace Usings

theorem less_of_key_eq_none {x other : Node} (h : other.usingKey? = none) :
    less x other = false ∧ less other x = false := by
  constructor
  · exact less_eq_false_iff.mpr fun key hkey => by rw [h] at hkey; cases hkey
  · exact less_eq_false_iff.mpr fun _ _ key hkey => by rw [h] at hkey; cases hkey

/-- Insertion goes no further than the first node that is no directive. -/
theorem insertBack_append (x : Node) (sorted : List Node) {other : Node}
    (h : other.usingKey? = none) (rest : List Node) :
    insertBack x (sorted ++ other :: rest) = insertBack x sorted ++ other :: rest := by
  induction sorted with
  | nil => simp [insertBack, (less_of_key_eq_none h).1]
  | cons y sorted ih =>
    rw [List.cons_append, insertBack, insertBack, ih]
    split <;> rfl

theorem foldl_insertBack_append (usings sorted : List Node) {other : Node}
    (h : other.usingKey? = none) (rest : List Node) :
    usings.foldl (fun sorted x => insertBack x sorted) (sorted ++ other :: rest) =
      usings.foldl (fun sorted x => insertBack x sorted) sorted ++ other :: rest := by
  induction usings generalizing sorted with
  | nil => rfl
  | cons x usings ih => rw [List.foldl_cons, List.foldl_cons, insertBack_append x sorted h, ih]

/-- The two sides of a node that is no directive are sorted each on its own. -/
theorem sort_append_cons (before after : List Node) {other : Node} (h : other.usingKey? = none) :
    sort (before ++ other :: after) = sort before ++ other :: sort after := by
  have hstay : ∀ sorted, insertBack other sorted = other :: sorted := by
    intro sorted
    cases sorted with
    | nil => rfl
    | cons y rest => simp [insertBack, (less_of_key_eq_none h).2]
  have hafter := foldl_insertBack_append after [] h
    (before.foldl (fun sorted x => insertBack x sorted) [])
  rw [List.nil_append] at hafter
  rw [sort, sort, sort, List.foldl_append, List.foldl_cons, hstay, hafter, List.reverse_append,
    List.reverse_cons, List.append_assoc, List.singleton_append]

/-- No directive in front of another node has to come after one behind that node. -/
def SortedApart (usings : List Node) : Prop :=
  ∀ before other after, usings = before ++ other :: after → other.kind ≠ .usingDirective →
    ∀ a ∈ before.filterMap Node.usingKey?, ∀ b ∈ after.filterMap Node.usingKey?, a.rank ≤ b.rank

theorem mem_keys_sort {usings : List Node} {key : UsingKey} :
    key ∈ (sort usings).filterMap Node.usingKey? ↔ key ∈ usings.filterMap Node.usingKey? :=
  ((sort_perm usings).filterMap _).mem_iff

/-- A list in two parts is in order if both are and no key in front is above one behind. -/
theorem areOrdered_append_cons_iff {before after : List Node} {other : Node}
    (h : other.usingKey? = none) :
    areOrdered (before ++ other :: after) = true ↔
      areOrdered before = true ∧ areOrdered after = true ∧
        ∀ a ∈ before.filterMap Node.usingKey?, ∀ b ∈ after.filterMap Node.usingKey?,
          a.rank ≤ b.rank := by
  simp only [areOrdered, decide_eq_true_iff, List.filterMap_append, List.filterMap_cons, h,
    List.pairwise_append]

/-- A list without directives only has a first node that is none. -/
theorem exists_split {usings : List Node} (h : ¬ areDirectives usings = true) :
    ∃ before other after, usings = before ++ other :: after ∧ other.kind ≠ .usingDirective ∧
      areDirectives before = true := by
  induction usings with
  | nil => exact absurd rfl h
  | cons entry rest ih =>
    by_cases hentry : entry.kind = .usingDirective
    · have hrest : ¬ areDirectives rest = true := by
        simpa [areDirectives, hentry] using h
      obtain ⟨before, other, after, rfl, hother, hbefore⟩ := ih hrest
      refine ⟨entry :: before, other, after, rfl, hother, ?_⟩
      simpa [areDirectives, hentry] using hbefore
    · exact ⟨[], entry, rest, rfl, hentry, rfl⟩

theorem SortedApart.of_suffix {before after : List Node} {other : Node}
    (h : SortedApart (before ++ other :: after)) : SortedApart after := by
  rintro front wall back rfl hwall a ha b hb
  refine h (before ++ other :: front) wall back (by simp) hwall a ?_ b hb
  rw [List.filterMap_append, List.filterMap_cons]
  exact List.mem_append_right _ (by split <;> simp [ha])

theorem areOrdered_sort_of_apart {usings : List Node} (h : SortedApart usings) :
    areOrdered (sort usings) = true := by
  -- by length: what stands behind the first other node is shorter
  induction hlength : usings.length using Nat.strongRecOn generalizing usings with
  | ind length ih =>
    by_cases hplain : areDirectives usings = true
    · exact areOrdered_sort hplain
    · obtain ⟨before, other, after, rfl, hother, hbefore⟩ := exists_split hplain
      have hkey := Node.usingKey?_eq_none_iff.mpr hother
      rw [sort_append_cons before after hkey, areOrdered_append_cons_iff hkey]
      refine ⟨areOrdered_sort hbefore, ih after.length ?_ h.of_suffix rfl, ?_⟩
      · rw [← hlength, List.length_append, List.length_cons]
        omega
      · intro a ha b hb
        exact h before other after rfl hother a (mem_keys_sort.mp ha) b (mem_keys_sort.mp hb)

theorem apart_of_areOrdered_sort {usings : List Node} (h : areOrdered (sort usings) = true) :
    SortedApart usings := by
  rintro before other after rfl hother a ha b hb
  have hkey := Node.usingKey?_eq_none_iff.mpr hother
  rw [sort_append_cons before after hkey, areOrdered_append_cons_iff hkey] at h
  exact h.2.2 a (mem_keys_sort.mpr ha) b (mem_keys_sort.mpr hb)

end Usings

/-- Every lawful sort leaves the other nodes among the usings of a compilation unit or namespace
where they are and sorts the directives between them, if there are at most 20 entries. All
directives are in order then exactly if none stood on the wrong side of another node. -/
theorem Node.areOrdered_sort_iff {sorter : Usings.Sorter} (lawful : sorter.Lawful) {node : Node}
    {usings : List Node} (h : node.usings? = some usings)
    (hsortable : Usings.isSortable usings = true) :
    ∃ sorted result, node.mapUsings? sorter = some sorted ∧ sorted.usings? = some result ∧
      result.Perm usings ∧
      (∀ before other after, usings = before ++ other :: after → other.kind ≠ .usingDirective →
        result = Usings.sort before ++ other :: Usings.sort after) ∧
      (Usings.areOrdered result = true ↔ Usings.SortedApart usings) := by
  have hall : node.usings?.all Usings.isSortable = true := by rw [h, Option.all_some, hsortable]
  refine ⟨node.mapUsings Usings.sort, Usings.sort usings, mapUsings?_of_lawful lawful hall, ?_,
    Usings.sort_perm usings, ?_, Usings.apart_of_areOrdered_sort,
    Usings.areOrdered_sort_of_apart⟩
  · rw [mapUsings_of_usings? h]
    exact usings?_withUsings h _
  · rintro before other after rfl hother
    exact Usings.sort_append_cons before after (Node.usingKey?_eq_none_iff.mpr hother)

/-- A unit with directives for these names in front of the name `x` and behind it. -/
def unitAroundX (front back : List String) : Node :=
  let directive (text : String) : Node :=
    .usingDirective (Build.keyword "using") none (.identifierName (Build.identifier text))
      (Build.punctuation ";")
  .compilationUnit
    (front.map directive ++ .identifierName (Build.identifier "x") :: back.map directive) []
    Build.endOfFile

/-- Both sides of `x` are sorted, and that is enough here. -/
theorem areOrdered_sort_around :
    ∃ usings sorted, (unitAroundX ["B", "A"] ["D", "C"]).usings? = some usings ∧
      Usings.isSortable usings = true ∧ Usings.areDirectives usings = false ∧
      (unitAroundX ["B", "A"] ["D", "C"]).mapUsings? Usings.insertion = some sorted ∧
      sorted.text = "usingA;usingB;xusingC;usingD;" ∧ Usings.SortedApart usings := by
  have hsome : (unitAroundX ["B", "A"] ["D", "C"]).usings?.isSome = true := by decide
  obtain ⟨usings, husings⟩ := Option.isSome_iff_exists.mp hsome
  have hshort : (unitAroundX ["B", "A"] ["D", "C"]).usings?.all Usings.isSortable = true := by
    decide
  have hmixed : (unitAroundX ["B", "A"] ["D", "C"]).usings?.any Usings.areDirectives = false := by
    decide
  have htext : ((unitAroundX ["B", "A"] ["D", "C"]).mapUsings? Usings.insertion).all
      (fun sorted => sorted.text = "usingA;usingB;xusingC;usingD;" ∧
        sorted.usings?.all Usings.areOrdered = true) = true := by decide
  rw [husings, Option.all_some] at hshort
  rw [husings, Option.any_some] at hmixed
  obtain ⟨sorted, result, hsorted, hresult, -, -, hiff⟩ :=
    Node.areOrdered_sort_iff Usings.insertion_lawful husings hshort
  rw [hsorted, Option.all_some, decide_eq_true_iff, hresult, Option.all_some] at htext
  exact ⟨usings, sorted, husings, hshort, hmixed, hsorted, htext.1, hiff.mp htext.2⟩

/-- `B` and `A` stay as they are when `x` stands between them. -/
theorem not_areOrdered_sort_around :
    ∃ usings sorted, (unitAroundX ["B"] ["A"]).usings? = some usings ∧ usings.length = 3 ∧
      (unitAroundX ["B"] ["A"]).mapUsings? Usings.insertion = some sorted ∧
      sorted.text = "usingB;xusingA;" ∧
      sorted.usings?.all Usings.areOrdered = false :=
  ⟨_, _, rfl, by decide, rfl, by decide, by decide⟩

end SourceTree
