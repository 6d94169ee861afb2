import DocMarkup.Footnote.Numbering
import DocMarkup.Proofs.FirstOccurrence

/-!
# The order of footnotes

Labels get their numbers in the order in which they first come up. So the order of a numbering
depends on nothing but the sequence of all labels that came up: it is this sequence without its
repetitions.

## Main results

* `Numbering.order_foldl_assign`, `Numbering.order_foldl_record` : the order after more labels.
* `Numbering.recorded_foldl_record` : the references recorded after more labels.
* `Numbering.index_eq_of_prefix` : a number that is shown stays right.
* `Numbering.indexOf?_eq_some_iff_idxOf` : which labels have a number, and which.
* `Numbering.backlinkTarget_eq` : where the note of a label points back to.
* `Numbering.order_ofLabels` : the order that a document starts with.
-/

namespace DocMarkup

namespace Numbering

variable {σ : Numbering}

theorem order_assign (hσ : σ.order.Nodup) (label : String) :
    (σ.assign label).order = (σ.order ++ [label]).eraseDups := by
  rw [eraseDups_concat, eraseDups_of_nodup hσ, assign]
  split <;> rfl

theorem nodup_order_assign (hσ : σ.order.Nodup) (label : String) :
    (σ.assign label).order.Nodup := by
  rw [order_assign hσ]
  exact nodup_eraseDups _

/-- The order after more labels have come up, in whichever way they are taken note of. -/
theorem order_foldl {f : Numbering → String → Numbering}
    (hf : ∀ σ label, (f σ label).order = (σ.assign label).order) (labels : List String)
    (hσ : σ.order.Nodup) : (labels.foldl f σ).order = (σ.order ++ labels).eraseDups := by
  induction labels generalizing σ with
  | nil => rw [List.foldl_nil, List.append_nil, eraseDups_of_nodup hσ]
  | cons label labels ih =>
    have hnext : (f σ label).order.Nodup := by
      rw [hf]
      exact nodup_order_assign hσ label
    rw [List.foldl_cons, ih hnext, hf, order_assign hσ, eraseDups_append_eraseDups,
      List.append_assoc, List.singleton_append]

theorem order_foldl_assign (labels : List String) (hσ : σ.order.Nodup) :
    (labels.foldl assign σ).order = (σ.order ++ labels).eraseDups :=
  order_foldl (fun _ _ => rfl) labels hσ

theorem order_foldl_record (labels : List String) (hσ : σ.order.Nodup) :
    (labels.foldl record σ).order = (σ.order ++ labels).eraseDups :=
  order_foldl (f := record) (fun _ _ => rfl) labels hσ

theorem recorded_assign (σ : Numbering) (label : String) :
    (σ.assign label).recorded = σ.recorded := by
  rw [assign]
  split <;> rfl

theorem recorded_foldl_assign (labels : List String) :
    (labels.foldl assign σ).recorded = σ.recorded := by
  induction labels generalizing σ with
  | nil => rfl
  | cons label labels ih => rw [List.foldl_cons, ih, recorded_assign]

theorem recorded_foldl_record (labels : List String) :
    (labels.foldl record σ).recorded = σ.recorded ++ labels := by
  induction labels generalizing σ with
  | nil => exact (List.append_nil _).symm
  | cons label labels ih =>
    rw [List.foldl_cons, ih, record, List.append_assoc, List.singleton_append]

theorem order_prefix_assign (σ : Numbering) (label : String) :
    σ.order <+: (σ.assign label).order := by
  rw [assign]
  split
  · exact List.prefix_rfl
  · exact List.prefix_append _ _

/-- No label loses its number when more labels come up, in whichever way they are taken note
of. -/
theorem order_prefix_foldl {f : Numbering → String → Numbering}
    (hf : ∀ σ label, (f σ label).order = (σ.assign label).order) (labels : List String)
    (σ : Numbering) : σ.order <+: (labels.foldl f σ).order := by
  induction labels generalizing σ with
  | nil => exact List.prefix_rfl
  | cons label labels ih =>
    refine List.IsPrefix.trans ?_ (ih _)
    rw [hf]
    exact order_prefix_assign σ label

theorem order_prefix_foldl_assign (labels : List String) (σ : Numbering) :
    σ.order <+: (labels.foldl assign σ).order :=
  order_prefix_foldl (f := assign) (fun _ _ => rfl) labels σ

theorem order_prefix_foldl_record (labels : List String) (σ : Numbering) :
    σ.order <+: (labels.foldl record σ).order :=
  order_prefix_foldl (f := record) (fun _ _ => rfl) labels σ

theorem mem_order_record (σ : Numbering) (label : String) : label ∈ (σ.record label).order := by
  rw [record, assign]
  split
  · assumption
  · exact List.mem_append_right _ (List.mem_singleton.2 rfl)

theorem index_eq_idxOf (σ : Numbering) (label : String) :
    σ.index label = (σ.record label).order.idxOf label + 1 := by
  rw [record, assign, index, indexOf?]
  by_cases h : label ∈ σ.order
  · rw [if_pos h, idxOf?_eq_some_idxOf h]
    rfl
  · rw [if_neg h, List.idxOf?_eq_none_iff.2 h, List.idxOf_append, if_neg h]
    simp

/-- The number that a reference shows is that of its label in every order that comes after. -/
theorem index_eq_of_prefix {label : String} {order : List String}
    (h : (σ.record label).order <+: order) : σ.index label = order.idxOf label + 1 := by
  obtain ⟨later, rfl⟩ := h
  rw [index_eq_idxOf, List.idxOf_append, if_pos (mem_order_record σ label)]

/-- The labels that have a number, and which. -/
theorem indexOf?_eq_some_iff_idxOf {label : String} {i : Nat} :
    σ.indexOf? label = some i ↔ label ∈ σ.order ∧ i = σ.order.idxOf label + 1 := by
  rw [indexOf?]
  by_cases h : label ∈ σ.order
  · rw [idxOf?_eq_some_idxOf h]
    simp [h, eq_comm]
  · rw [List.idxOf?_eq_none_iff.2 h]
    simp [h]

/-- The note of a label points back by the number of the label, whether a reference to it has been
recorded or not. -/
theorem backlinkTarget_of_indexOf? {label : String} {i : Nat} (h : σ.indexOf? label = some i) :
    σ.backlinkTarget label i = referenceId i 1 := by
  rw [backlinkTarget, index, h, Option.getD_some, ite_self]

/-- The note of the label at a place in the order points back by the number of that place. -/
theorem backlinkTarget_eq (hσ : σ.order.Nodup) {label : String} {i : Nat}
    (h : σ.order[i]? = some label) : σ.backlinkTarget label (i + 1) = referenceId (i + 1) 1 := by
  obtain ⟨hlt, rfl⟩ := List.getElem?_eq_some_iff.1 h
  refine backlinkTarget_of_indexOf? (indexOf?_eq_some_iff_idxOf.2 ⟨List.getElem_mem hlt, ?_⟩)
  rw [hσ.idxOf_getElem i hlt]

/-- The order that a document starts with. -/
theorem order_ofLabels (labels : List String) : (ofLabels labels).order = labels.eraseDups :=
  order_foldl_assign labels List.nodup_nil

theorem recorded_ofLabels (labels : List String) : (ofLabels labels).recorded = [] :=
  recorded_foldl_assign labels

end Numbering

end DocMarkup
