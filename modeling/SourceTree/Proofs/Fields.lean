import SourceTree.Proofs.Equality
import SourceTree.Proofs.Traversal.Request

/-!
One field of a node: what it holds, what it holds after it was set, and that no other field
changes then.
-/
namespace SourceTree

variable {target : Field} {fields : List Field}

theorem Slots.exists_get? (slots : Slots fields) (target : Field) (h : target ∈ fields) :
    ∃ content, slots.get? target = some content := by
  induction fields with
  | nil => exact nomatch h
  | cons field fields ih =>
    cases slots with
    | cons slot rest =>
      rw [Slots.get?]
      by_cases hfield : field = target
      · exact ⟨_, dif_pos hfield⟩
      · obtain ⟨content, hcontent⟩ := ih rest ((List.mem_cons.mp h).resolve_left (Ne.symm hfield))
        exact ⟨content, (dif_neg hfield).trans hcontent⟩

theorem Slots.mem_of_get? {slots : Slots fields} {content : Slot target.shape}
    (h : slots.get? target = some content) : target ∈ fields := by
  induction fields with
  | nil => cases slots; exact nomatch h
  | cons field fields ih =>
    cases slots with
    | cons slot rest =>
      rw [Slots.get?] at h
      by_cases hfield : field = target
      · exact hfield ▸ List.mem_cons_self
      · rw [dif_neg hfield] at h
        exact List.mem_cons_of_mem _ (ih h)

/-- To put back what is there changes nothing. -/
theorem Slots.set_get? {slots : Slots fields} {content : Slot target.shape}
    (h : slots.get? target = some content) : slots.set target content = slots := by
  induction fields with
  | nil => cases slots; rfl
  | cons field fields ih =>
    cases slots with
    | cons slot rest =>
      rw [Slots.get?] at h
      rw [Slots.set]
      by_cases hfield : field = target
      · subst hfield
        rw [dif_pos rfl] at h ⊢
        obtain rfl : slot = content := Option.some.inj h
        rfl
      · rw [dif_neg hfield] at h
        rw [dif_neg (Ne.symm hfield), ih h]

theorem Slots.get?_set (slots : Slots fields) (content : Slot target.shape) (h : target ∈ fields) :
    (slots.set target content).get? target = some content := by
  induction fields with
  | nil => cases h
  | cons field fields ih =>
    cases slots with
    | cons slot rest =>
      rw [Slots.set]
      by_cases hfield : target = field
      · subst hfield
        rw [dif_pos rfl, Slots.get?, dif_pos rfl]
      · rw [dif_neg hfield, Slots.get?, dif_neg (Ne.symm hfield)]
        exact ih rest ((List.mem_cons.mp h).resolve_left hfield)

theorem Slots.get?_set_of_ne (slots : Slots fields) (content : Slot target.shape) {other : Field}
    (h : other ≠ target) : (slots.set target content).get? other = slots.get? other := by
  induction fields with
  | nil => cases slots; rfl
  | cons field fields ih =>
    cases slots with
    | cons slot rest =>
      rw [Slots.set]
      by_cases hfield : target = field
      · subst hfield
        rw [dif_pos rfl, Slots.get?, Slots.get?, dif_neg (Ne.symm h), dif_neg (Ne.symm h)]
      · rw [dif_neg hfield, Slots.get?, Slots.get?, ih rest]

/-- What was set first is gone. -/
theorem Slots.set_set (slots : Slots fields) (first second : Slot target.shape) :
    (slots.set target first).set target second = slots.set target second := by
  induction fields with
  | nil => cases slots; rfl
  | cons field fields ih =>
    cases slots with
    | cons slot rest =>
      rw [Slots.set, Slots.set]
      by_cases hfield : target = field
      · subst hfield
        rw [dif_pos rfl, dif_pos rfl, Slots.set, dif_pos rfl]
      · rw [dif_neg hfield, dif_neg hfield, Slots.set, dif_neg hfield, ih rest]

/-- Fields that were not set ask for what they did before. -/
theorem Slots.mem_requests_set {slots : Slots fields} {content : Slot target.shape}
    {request : Request} (h : request ∈ (slots.set target content).requests) :
    request ∈ content.requests ∨ request ∈ slots.requests := by
  induction fields with
  | nil => cases slots; cases h
  | cons field fields ih =>
    cases slots with
    | cons slot rest =>
      rw [Slots.set] at h
      by_cases hfield : target = field
      · subst hfield
        rw [dif_pos rfl] at h
        exact (List.mem_append.mp h).imp_right (List.mem_append_right _)
      · rw [dif_neg hfield] at h
        rcases List.mem_append.mp h with h | h
        · exact .inr (List.mem_append_left _ h)
        · exact (ih h).imp_right (List.mem_append_right _)

theorem Slots.mem_requests_of_get? {slots : Slots fields} {content : Slot target.shape}
    (h : slots.get? target = some content) {request : Request}
    (hr : request ∈ content.requests) : request ∈ slots.requests := by
  induction fields with
  | nil => cases slots; cases h
  | cons field fields ih =>
    cases slots with
    | cons slot rest =>
      rw [Slots.get?] at h
      by_cases hfield : field = target
      · subst hfield
        rw [dif_pos rfl] at h
        obtain rfl : slot = content := Option.some.inj h
        exact List.mem_append_left _ hr
      · rw [dif_neg hfield] at h
        exact List.mem_append_right _ (ih h)

theorem Slots.get?_bare (slots : Slots fields) :
    slots.bare.get? target = (slots.get? target).map Slot.bare := by
  induction fields with
  | nil => cases slots; rfl
  | cons field fields ih =>
    cases slots with
    | cons slot rest =>
      rw [Slots.bare, Slots.get?, Slots.get?]
      by_cases hfield : field = target
      · subst hfield
        rw [dif_pos rfl, dif_pos rfl]
        rfl
      · rw [dif_neg hfield, dif_neg hfield, ih rest]

end SourceTree
