import Mathlib.Data.List.Forall2
import Mathlib.Data.List.Nodup
import SourceTree.Json.Tree

/-!
The ways to write a record. An object may hold the fields in any order, without those that
have no value and with any others among them; an array holds the values in order. `record?`
reads each of them as the values.
-/
namespace SourceTree.Json

/-- The field of one name, if it has a value. -/
def ownField (name : String) (value : Option Json) : List (String × Json) :=
  (value.map (name, ·)).toList

/-- The fields that have a value, in the order of the names. -/
def present (names : List String) (values : List (Option Json)) : List (String × Json) :=
  (names.zip values).flatMap fun (name, value) => ownField name value

/-- The forms of a record with these names and values. An array may leave off up to `optional`
values at its end. -/
inductive Record (names : List String) (optional : Nat) (values : List (Option Json)) :
    Json → Prop where
  | object {fields ignored : List (String × Json)}
      (order : fields.Perm (present names values ++ ignored))
      (unknown : ∀ field ∈ ignored, field.1 ∉ names) : Record names optional values (.object fields)
  | array {items : List Json} {missing : Nat}
      (split : values = items.map some ++ List.replicate missing none)
      (few : missing ≤ optional) : Record names optional values (.array items)

theorem present_map (fields : List (String × Json)) :
    present (fields.map Prod.fst) (fields.map fun field => some field.2) = fields := by
  rw [present, List.zip_map', List.flatMap_map]
  simp [ownField]

/-- The form that has the fields in order and no others. -/
theorem record_present (names : List String) (optional : Nat) (values : List (Option Json)) :
    Record names optional values (.object (present names values)) := by
  refine @Record.object _ _ _ _ [] ?_ (List.forall_mem_nil _)
  rw [List.append_nil]

theorem record_object {fields : List (String × Json)} {names : List String}
    (hnames : fields.map Prod.fst = names) (optional : Nat) :
    Record names optional (fields.map fun field => some field.2) (.object fields) := by
  have h := record_present names optional (fields.map fun field => some field.2)
  rwa [← hnames, present_map, hnames] at h

/-! ### The fields of a name -/

/-- All fields with a given name. -/
def keyed (name : String) (fields : List (String × Json)) : List (String × Json) :=
  fields.filter fun field => field.1 == name

theorem keyed_append (name : String) (first second : List (String × Json)) :
    keyed name (first ++ second) = keyed name first ++ keyed name second :=
  List.filter_append ..

theorem keyed_eq_nil {name : String} {fields : List (String × Json)}
    (h : ∀ field ∈ fields, field.1 ≠ name) : keyed name fields = [] := by
  rw [keyed, List.filter_eq_nil_iff]
  intro field hf heq
  exact h field hf (eq_of_beq heq)

theorem keyed_ownField (name : String) (value : Option Json) :
    keyed name (ownField name value) = ownField name value := by
  cases value <;> simp [keyed, ownField]

theorem lookup_eq_head? (name : String) (fields : List (String × Json)) :
    fields.lookup name = (keyed name fields).head?.map Prod.snd := by
  induction fields with
  | nil => rfl
  | cons field fields ih =>
    obtain ⟨key, value⟩ := field
    by_cases hkey : key = name
    · simp [keyed, hkey]
    · have hname : (name == key) = false := beq_eq_false_iff_ne.mpr (Ne.symm hkey)
      simpa [keyed, List.lookup_cons, hkey, hname] using ih

theorem fst_of_mem_ownField {name : String} {value : Option Json} {field : String × Json}
    (h : field ∈ ownField name value) : field.1 = name := by
  obtain ⟨json, -, rfl⟩ := Option.map_eq_some_iff.mp (Option.mem_toList.mp h)
  rfl

theorem fst_mem_of_mem_present {names : List String} {values : List (Option Json)}
    {field : String × Json} (h : field ∈ present names values) : field.1 ∈ names := by
  obtain ⟨⟨name, value⟩, hmem, hfield⟩ := List.mem_flatMap.mp h
  exact fst_of_mem_ownField hfield ▸ (List.of_mem_zip hmem).1

/-- Each name has its own field and no other. The fields of the names before it count as ignored
on the way down the list. -/
theorem keyed_of_perm {names : List String} {values : List (Option Json)}
    {fields ignored : List (String × Json)} (hlength : names.length = values.length)
    (hnodup : names.Nodup) (order : fields.Perm (present names values ++ ignored))
    (unknown : ∀ field ∈ ignored, field.1 ∉ names) :
    List.Forall₂ (fun name value => keyed name fields = ownField name value) names values := by
  induction names generalizing values ignored with
  | nil =>
    obtain rfl : values = [] := List.length_eq_zero_iff.mp hlength.symm
    exact .nil
  | cons name names ih =>
    obtain ⟨value, values, rfl⟩ := List.exists_cons_of_length_eq_add_one hlength.symm
    obtain ⟨hname, hnames⟩ := List.nodup_cons.mp hnodup
    have hfields : fields.Perm (ownField name value ++ (present names values ++ ignored)) := by
      rw [← List.append_assoc]
      exact order
    have hothers : keyed name (present names values ++ ignored) = [] := by
      apply keyed_eq_nil
      intro field hf heq
      rcases List.mem_append.mp hf with hf | hf
      · exact hname (heq ▸ fst_mem_of_mem_present hf)
      · exact unknown field hf (heq ▸ List.mem_cons_self)
    have hkeyed : (keyed name fields).Perm (ownField name value) := by
      have hfilter := hfields.filter fun field => field.1 == name
      rw [← keyed, ← keyed, keyed_append, keyed_ownField, hothers, List.append_nil] at hfilter
      exact hfilter
    refine .cons ?_ (ih (Nat.succ.inj hlength) hnames
      (hfields.trans (List.perm_append_comm_assoc ..)) ?_)
    · cases value with
      | none => exact hkeyed.eq_nil
      | some json => exact List.perm_singleton.mp hkeyed
    · intro field hf hmem
      rcases List.mem_append.mp hf with hf | hf
      · exact hname (fst_of_mem_ownField hf ▸ hmem)
      · exact unknown field hf (List.mem_cons_of_mem _ hmem)

/-! ### Reading -/

/-- Every form of a record gives its values. -/
theorem record?_of_record {names : List String} {optional : Nat} {values : List (Option Json)}
    {json : Json} (h : Record names optional values json) (hlength : names.length = values.length)
    (hnodup : names.Nodup) : record? names optional json = some values := by
  cases h with
  | @object fields ignored order unknown =>
    have hkeyed := keyed_of_perm hlength hnodup order unknown
    have hboth := hkeyed.imp fun name value h =>
      show (keyed name fields).length ≤ 1 ∧ fields.lookup name = value by
        rw [lookup_eq_head?, h]
        cases value <;> simp [ownField]
    obtain ⟨honce, hlookup⟩ := (List.forall₂_and_left ..).mp hboth
    have hany : ¬ (names.any fun name => decide (1 < (keyed name fields).length)) = true := by
      simpa using honce
    have hvalues : names.map (fun name => fields.lookup name) = values := by
      rw [← List.forall₂_eq_eq_eq, List.forall₂_map_left_iff]
      exact hlookup
    exact (if_neg hany).trans (congrArg some hvalues)
  | @array items missing split few =>
    have hnames : names.length = items.length + missing := by simp [hlength, split]
    have hmissing : names.length - items.length = missing := by omega
    have hfits : (decide (items.length ≤ names.length) &&
        decide (names.length ≤ items.length + optional)) = true := by
      simp only [Bool.and_eq_true, decide_eq_true_eq]
      omega
    rw [record?, if_pos hfits, hmissing, split]

end SourceTree.Json
