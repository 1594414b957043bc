import SourceTree.Proofs.Layout.Comments

/-!
Lines and options. A tree has one list of lines, whatever the options; these only say what a level
of indentation and the end of a line look like. The list is told by the layouts: with another
newline a layout changes at the ends of its lines and nowhere else, which gives the rows, and with
another unit of indentation these change by the levels.
-/
namespace SourceTree.Layout

/-! ### Rows -/

theorem append_cons_inj {α : Type} {stop : α} {as bs cs ds : List α} (ha : stop ∉ as)
    (hb : stop ∉ bs) (h : as ++ stop :: cs = bs ++ stop :: ds) : as = bs ∧ cs = ds := by
  induction as generalizing bs with
  | nil =>
    cases bs with
    | nil => exact ⟨rfl, (List.cons.inj h).2⟩
    | cons b bs => exact absurd ((List.cons.inj h).1 ▸ List.mem_cons_self) hb
  | cons a as ih =>
    cases bs with
    | nil => exact absurd ((List.cons.inj h).1 ▸ List.mem_cons_self) ha
    | cons b bs =>
      obtain ⟨rfl, htail⟩ := List.cons.inj h
      obtain ⟨rfl, hrest⟩ := ih (fun hmem => ha (List.mem_cons_of_mem a hmem))
        (fun hmem => hb (List.mem_cons_of_mem a hmem)) htail
      exact ⟨rfl, hrest⟩

/-- Lists that end in a mark which none of them holds are told apart in their concatenation. -/
theorem eq_of_flatMap_stop {α : Type} {stop : α} {as bs : List (List α)}
    (ha : ∀ a ∈ as, stop ∉ a) (hb : ∀ b ∈ bs, stop ∉ b)
    (h : as.flatMap (· ++ [stop]) = bs.flatMap (· ++ [stop])) : as = bs := by
  induction as generalizing bs with
  | nil =>
    cases bs with
    | nil => rfl
    | cons b bs => simp at h
  | cons a as ih =>
    cases bs with
    | nil => simp at h
    | cons b bs =>
      obtain ⟨hfirst, hrest⟩ := List.forall_mem_cons.mp ha
      obtain ⟨hfirst', hrest'⟩ := List.forall_mem_cons.mp hb
      simp only [List.flatMap_cons, List.append_assoc, List.singleton_append] at h
      obtain ⟨rfl, htail⟩ := append_cons_inj hfirst hfirst' h
      rw [ih hrest hrest' htail]

/-- Each row with its newline. -/
def ended (rows : List String) (newline : String) : String :=
  String.join (rows.map (· ++ newline))

/-- Side by side, two texts that differ in the newline differ at the ends of rows only. -/
theorem zip_ended (rows : List String) (a b : Char) :
    (ended rows (String.singleton a)).toList.zip (ended rows (String.singleton b)).toList =
      (rows.map fun row => row.toList.map fun c => (c, c)).flatMap (· ++ [(a, b)]) := by
  induction rows with
  | nil => rfl
  | cons row rows ih =>
    have hzip : (row.toList ++ [a]).zip (row.toList ++ [b]) =
        row.toList.map (fun c => (c, c)) ++ [(a, b)] := by
      rw [List.zip_append rfl, List.zip_eq_zipWith, List.zipWith_self]
      rfl
    simp only [ended, List.map_cons, String.join_cons, String.toList_append,
      String.toList_singleton, List.flatMap_cons] at ih ⊢
    rw [List.zip_append (by simp), hzip, ih]

theorem rows_eq_of_ended {rows others : List String}
    (h : ∀ newline, ended rows newline = ended others newline) : rows = others := by
  have hzip := zip_ended rows 'a' 'b'
  rw [h, h, zip_ended] at hzip
  have hstop : ∀ rows : List String,
      ∀ pairs ∈ rows.map (fun row => row.toList.map fun c => (c, c)), ('a', 'b') ∉ pairs := by
    intro rows pairs hpairs hmem
    obtain ⟨row, -, rfl⟩ := List.mem_map.mp hpairs
    obtain ⟨c, -, hc⟩ := List.mem_map.mp hmem
    obtain ⟨rfl, hc⟩ := Prod.mk.inj hc
    cases hc
  have hpairs := eq_of_flatMap_stop (hstop others) (hstop rows) hzip
  have hinjective : Function.Injective fun row : String => row.toList.map fun c => (c, c) := by
    intro row other heq
    have hlists := List.map_injective_iff.mpr (fun c d hcd => (Prod.mk.inj hcd).1) heq
    exact String.toList_inj.mp hlists
  exact (List.map_injective_iff.mpr hinjective hpairs).symm

/-! ### Lines -/

/-- Without indentation a row is its text. -/
theorem row_spaces_zero (line : Line) (newline : String) :
    line.row ⟨.spaces 0, newline⟩ = line.text := by
  have hnone : ∀ level, String.join (List.replicate level (Indent.spaces 0).unit) = "" := by
    intro level
    induction level with
    | zero => rfl
    | succ level ih => rw [List.replicate_succ, String.join_cons, ih]; rfl
  rw [Line.row, hnone, String.empty_append]

theorem length_row_tabs (line : Line) (newline : String) :
    (line.row ⟨.tabs, newline⟩).length = line.level + line.text.length := by
  have htabs : ∀ level, (String.join (List.replicate level Indent.tabs.unit)).length = level := by
    intro level
    induction level with
    | zero => rfl
    | succ level ih =>
      rw [List.replicate_succ, String.join_cons, String.length_append, ih, Nat.add_comm]
      rfl
  rw [Line.row, String.length_append, htabs]

/-- A list of lines is told by what it looks like under all options. -/
theorem render_injective {as bs : List Line}
    (h : ∀ options, render options as = render options bs) : as = bs := by
  have hrows : ∀ indent, as.map (Line.row ⟨indent, ""⟩) = bs.map (Line.row ⟨indent, ""⟩) := by
    intro indent
    refine rows_eq_of_ended fun newline => ?_
    have hrender := h ⟨indent, newline⟩
    rw [render_eq_rows, render_eq_rows] at hrender
    exact hrender
  have htexts := hrows (.spaces 0)
  have htabs := hrows .tabs
  clear h hrows
  induction as generalizing bs with
  | nil => exact (List.map_eq_nil_iff.mp htexts.symm).symm
  | cons a as ih =>
    cases bs with
    | nil => cases htexts
    | cons b bs =>
      obtain ⟨htext, hmore⟩ := List.cons.inj htexts
      obtain ⟨hrow, hmoreRows⟩ := List.cons.inj htabs
      rw [row_spaces_zero, row_spaces_zero] at htext
      have hlength := congrArg String.length hrow
      rw [length_row_tabs, length_row_tabs, htext, Nat.add_right_cancel_iff] at hlength
      obtain ⟨level, text⟩ := a
      obtain rfl : level = b.level := hlength
      obtain rfl : text = b.text := htext
      rw [ih hmore hmoreRows]

/-- A line with nothing but its end on it has no indentation and no text. -/
theorem eq_blank_of_render {line : Line}
    (h : ∀ options : Options, line.render options = options.newline) : line = .blank := by
  have hlines : [line] = [Line.blank] := by
    refine render_injective fun options => ?_
    have hblank : Line.blank.render options = options.newline := by simp [Line.blank, Line.render]
    rw [render, render, List.map_singleton, List.map_singleton, h options, hblank]
  exact List.head_eq_of_cons_eq hlines

/-! ### Other options -/

/-- The second text is the first, with what one option value puts in for a level of indentation and
for the end of a line replaced by what another puts in. -/
inductive Substituted (first second : Options) : String → String → Prop where
  | nil : Substituted first second "" ""
  | text (part : String) {before after : String} (h : Substituted first second before after) :
      Substituted first second (part ++ before) (part ++ after)
  | unit {before after : String} (h : Substituted first second before after) :
      Substituted first second (first.indent.unit ++ before) (second.indent.unit ++ after)
  | newline {before after : String} (h : Substituted first second before after) :
      Substituted first second (first.newline ++ before) (second.newline ++ after)

namespace Substituted

variable {first second : Options}

theorem indentation (level : Nat) {before after : String}
    (h : Substituted first second before after) :
    Substituted first second (String.join (List.replicate level first.indent.unit) ++ before)
      (String.join (List.replicate level second.indent.unit) ++ after) := by
  induction level with
  | zero => simpa using h
  | succ level ih =>
    rw [List.replicate_succ, List.replicate_succ, String.join_cons, String.join_cons,
      String.append_assoc, String.append_assoc]
    exact ih.unit

theorem render (lines : List Line) :
    Substituted first second (Layout.render first lines) (Layout.render second lines) := by
  induction lines with
  | nil => exact .nil
  | cons line lines ih =>
    have hline := indentation line.level (text line.text (newline ih))
    simp only [Layout.render, List.map_cons, String.join_cons, Line.render, String.append_assoc]
      at hline ⊢
    exact hline

end Substituted

/-! ### One list of lines -/

/-- There is exactly one list of lines that gives the layout of a tree under all options. Each line,
the last one too, ends with the newline; one that is blank under all options has level 0 and no
text; and options change nothing but the unit of indentation and the newline. -/
theorem format_existsUnique_lines (root : Node) :
    (∃! lines : List Line, ∀ options : Options, format root options =
      String.join (lines.map fun line =>
        String.join (List.replicate line.level options.indent.unit) ++ line.text ++
          options.newline)) ∧
    (∀ options, ∃ rows : List String, rows.length = (lines root).length ∧
      format root options = String.join (rows.map (· ++ options.newline))) ∧
    (∀ line ∈ lines root, (∀ options : Options, line.render options = options.newline) →
      line = ⟨0, ""⟩) ∧
    ∀ first second, Substituted first second (format root first) (format root second) := by
  refine ⟨⟨lines root, format_eq_render root, fun others h => ?_⟩, fun options => ?_,
    fun line _ h => eq_blank_of_render h, fun first second => ?_⟩
  · exact render_injective fun options => (h options).symm.trans (format_eq_render root options)
  · exact ⟨_, List.length_map _,
      (format_eq_render root options).trans (render_eq_rows options (lines root))⟩
  · rw [format_eq_render, format_eq_render]
    exact .render (lines root)

end SourceTree.Layout
