import DocMarkup.Footnote.Resolver
import DocMarkup.Proofs.Footnote.Consistency
import DocMarkup.Proofs.OrderedMap

/-!
# The tables of footnotes stay in step

The tables of a resolver are written one by one, and each call reads some of them and trusts the
others. They tell no more than two lists do: the order of the labels, and the references in the
order in which they were recorded. Each call keeps the tables and the lists in step and gives back
what the lists tell. So what is known of runs on the lists holds of runs on the tables, whatever is
asked of them and in whichever order.

## Main definitions

* `Resolver.run` : what calls on the tables give back.
* `Resolver.Tabulates` : the tables hold what a numbering tells.
* `Resolver.Consistent` : what the tables are and give back in a run of calls.

## Main results

* `Resolver.Tabulates.assign`, `Resolver.Tabulates.record` : each call keeps tables and lists in
  step.
* `Resolver.Tabulates.run` : so does a run of calls, and it gives back the same.
* `Resolver.run_consistent` : runs of calls on the tables.
-/

namespace DocMarkup

namespace Numbering

variable {σ : Numbering} {label l : String}

/-- What a label that comes up changes in the numbers of labels. -/
theorem indexOf?_assign :
    (σ.assign label).indexOf? l = if l = label then some (σ.index label) else σ.indexOf? l := by
  split
  · subst l
    exact indexOf?_eq_some_iff_idxOf.2 ⟨mem_order_record σ label, index_eq_idxOf σ label⟩
  · rename_i hl
    rw [assign]
    split
    · rfl
    · rw [indexOf?, indexOf?, List.idxOf?, List.findIdx?_append]
      simp [Ne.symm hl]

/-- The number that a label is going to have is the one that it has then. -/
theorem index_assign (hl : l ∈ (σ.assign label).order) :
    (σ.assign label).index l = σ.index l := by
  obtain ⟨i, hi⟩ : ∃ i, (σ.assign label).indexOf? l = some i :=
    ⟨_, indexOf?_eq_some_iff_idxOf.2 ⟨hl, rfl⟩⟩
  rw [index, hi]
  rw [indexOf?_assign] at hi
  split at hi
  · subst l
    exact (Option.some.inj hi).symm
  · rw [index, hi]
    rfl

end Numbering

namespace Resolver

open DocMarkup.Numbering (Call Event firstAnchor? referenceId)

/-- What happens in a call, and the tables after it. -/
def perform (r : Resolver) : Call → Event × Resolver
  | .assign label =>
    let (index, r) := r.assign label
    (.assigned label index, r)
  | .record label =>
    let (anchor, r) := r.record label
    (.recorded label anchor, r)

/-- What happens in calls one after the other, and the tables after them. -/
def run (r : Resolver) : List Call → List Event × Resolver
  | [] => ([], r)
  | call :: rest =>
    let (event, r) := r.perform call
    let (events, r) := run r rest
    (event :: events, r)

/-- The tables hold what a numbering tells. -/
structure Tabulates (r : Resolver) (σ : Numbering) : Prop where
  order : r.order = σ.order
  numbers : ∀ label, r.numbers.get? label = σ.indexOf? label
  counts : ∀ label, (r.counts.get? label).getD 0 = σ.recorded.count label
  /-- The first reference to a label is kept once it has been recorded. -/
  firstIds : ∀ label, r.firstIds.get? label =
    if label ∈ σ.recorded then some (referenceId (σ.index label) 1) else none
  /-- References are recorded to labels with numbers only. -/
  numbered : σ.recorded ⊆ σ.order

namespace Tabulates

variable {r : Resolver} {σ : Numbering}

theorem empty : Tabulates {} {} where
  order := rfl
  numbers _ := rfl
  counts _ := rfl
  firstIds _ := rfl
  numbered := List.nil_subset _

/-- A label that comes up gets the number that the numbering tells, and tables and numbering stay in
step. -/
theorem assign (h : Tabulates r σ) (label : String) :
    (r.assign label).1 = σ.index label ∧ Tabulates (r.assign label).2 (σ.assign label) := by
  rw [Resolver.assign, h.numbers, Numbering.index]
  cases hi : σ.indexOf? label with
  | some i =>
    have hmem : label ∈ σ.order := (Numbering.indexOf?_eq_some_iff_idxOf.1 hi).1
    rw [Numbering.assign, if_pos hmem]
    exact ⟨rfl, h⟩
  | none =>
    have hnew : label ∉ σ.order := fun hmem => by
      rw [Numbering.indexOf?_eq_some_iff_idxOf.2 ⟨hmem, rfl⟩] at hi
      cases hi
    have hindex : σ.index label = σ.order.length + 1 := by
      rw [Numbering.index, hi]
      rfl
    refine ⟨by simp [h.order], ?_, fun l => ?_, fun l => ?_, fun l => ?_, ?_⟩
    · rw [Numbering.assign, if_neg hnew, h.order]
    · rw [Numbering.indexOf?_assign, hindex]
      by_cases hl : l = label
      · simp [hl, h.order]
      · rw [if_neg hl, ← h.numbers]
        exact OrderedMap.get?_insert_of_ne hl _ _
    · rw [Numbering.recorded_assign]
      exact h.counts l
    · rw [Numbering.recorded_assign, h.firstIds l]
      by_cases hl : l ∈ σ.recorded
      · have hmem := (Numbering.order_prefix_assign σ label).subset (h.numbered hl)
        rw [if_pos hl, if_pos hl, Numbering.index_assign hmem]
      · rw [if_neg hl, if_neg hl]
    · rw [Numbering.recorded_assign]
      exact List.Subset.trans h.numbered (Numbering.order_prefix_assign σ label).subset

/-- A reference that is recorded shows what the numbering tells, and tables and numbering stay in
step. -/
theorem record (h : Tabulates r σ) (label : String) :
    (r.record label).1 = σ.anchor label ∧ Tabulates (r.record label).2 (σ.record label) := by
  have hassign := h.assign label
  rw [Resolver.record]
  generalize r.assign label = assigned at hassign
  obtain ⟨index, r⟩ := assigned
  obtain ⟨rfl, h⟩ := hassign
  have hcount (l : String) : (r.counts.get? l).getD 0 = σ.recorded.count l := by
    rw [h.counts, Numbering.recorded_assign]
  have hfirst (l : String) := h.firstIds l
  simp only [Numbering.recorded_assign] at hfirst
  dsimp only
  refine ⟨by rw [hcount]; rfl, h.order, h.numbers, fun l => ?_, fun l => ?_, ?_⟩
  · rw [Numbering.record, List.count_append]
    by_cases hl : l = label
    · simp [hl, hcount]
    · rw [OrderedMap.get?_insert_of_ne hl, hcount]
      simp [Ne.symm hl]
  · change _ = if l ∈ σ.recorded ++ [label] then
      some (referenceId ((σ.assign label).index l) 1) else none
    rw [OrderedMap.get?_insert_of_new, hfirst, hcount]
    by_cases hl : l ∈ σ.recorded
    · rw [if_pos hl, Option.some_or, if_pos (List.mem_append_left _ hl)]
    · by_cases he : l = label
      · subst l
        rw [if_neg hl, Option.none_or, if_pos rfl, if_pos (List.mem_append_right _ (.head _)),
          List.count_eq_zero_of_not_mem hl,
          Numbering.index_assign (Numbering.mem_order_record σ label)]
      · simp [hl, he]
  · refine List.append_subset.2 ⟨?_, ?_⟩
    · rw [← Numbering.recorded_assign σ label]
      exact h.numbered
    · exact List.cons_subset.2 ⟨Numbering.mem_order_record σ label, List.nil_subset _⟩

/-- A call gives back what the numbering gives back, and keeps tables and numbering in step. -/
theorem perform (h : Tabulates r σ) (call : Call) :
    (r.perform call).1 = (σ.perform call).1 ∧ Tabulates (r.perform call).2 (σ.perform call).2 := by
  cases call with
  | assign label =>
    obtain ⟨hindex, hnext⟩ := h.assign label
    exact ⟨congrArg (Event.assigned label) hindex, hnext⟩
  | record label =>
    obtain ⟨hanchor, hnext⟩ := h.record label
    exact ⟨congrArg (Event.recorded label) hanchor, hnext⟩

/-- **Tables and numbering stay in step** in a run of calls, which gives back the same on both. -/
theorem run (h : Tabulates r σ) (calls : List Call) :
    (r.run calls).1 = (σ.run calls).1 ∧ Tabulates (r.run calls).2 (σ.run calls).2 := by
  induction calls generalizing r σ with
  | nil => exact ⟨rfl, h⟩
  | cons call calls ih =>
    obtain ⟨hevent, hnext⟩ := h.perform call
    obtain ⟨hevents, hlast⟩ := ih hnext
    exact ⟨congrArg₂ List.cons hevent hevents, hlast⟩

theorem ofLabels (labels : List String) :
    Tabulates (Resolver.ofLabels labels) (Numbering.ofLabels labels) := by
  have hfoldl : ∀ {r : Resolver} {σ : Numbering}, Tabulates r σ →
      Tabulates (labels.foldl (fun r label => (r.assign label).2) r)
        (labels.foldl Numbering.assign σ) := by
    induction labels with
    | nil => exact fun h => h
    | cons label labels ih => exact fun h => ih (h.assign label).2
  exact hfoldl empty

/-- The note of a label points back to where the numbering tells. -/
theorem backlinkTarget_eq (h : Tabulates r σ) (label : String) (index : Nat) :
    r.backlinkTarget label index = σ.backlinkTarget label index := by
  rw [backlinkTarget, Numbering.backlinkTarget, h.firstIds]
  split <;> rfl

end Tabulates

/-- What the tables are and give back in a run of calls. -/
structure Consistent (r : Resolver) (calls : List Call) : Prop where
  nodup : (r.run calls).2.order.Nodup
  /-- The number of a label is its place in the order, from 1. -/
  indexOf?_iff : ∀ label i,
    (r.run calls).2.indexOf? label = some i ↔
      0 < i ∧ (r.run calls).2.order[i - 1]? = some label
  /-- A label that has a number keeps it. -/
  kept : ∀ later label i, (r.run calls).2.indexOf? label = some i →
    (r.run (calls ++ later)).2.indexOf? label = some i
  /-- Every number that was given back is still that of its label. -/
  given : ∀ event ∈ (r.run calls).1, (r.run calls).2.indexOf? event.label = some event.index
  /-- As many references to a label are counted as were recorded. -/
  counted : ∀ label, ((r.run calls).2.counts.get? label).getD 0 =
    ((r.run calls).1.filterMap (Event.anchorOf? label)).length
  /-- The identifier that is kept for a label is that of the first reference to it. -/
  first : ∀ label, (r.run calls).2.firstIds.get? label =
    (firstAnchor? label (r.run calls).1).map Anchor.id
  /-- No two references got the same identifier. -/
  ids : ((r.run calls).1.filterMap Event.id?).Nodup
  /-- The note of a label points back to the reference that was recorded first, or, if none was
  yet, to the one that will be. -/
  back : ∀ label i, (r.run calls).2.indexOf? label = some i → ∀ later,
    Call.record label ∈ calls ++ later →
      ∃ anchor, firstAnchor? label (r.run (calls ++ later)).1 = some anchor ∧
        (r.run calls).2.backlinkTarget label i = anchor.id

/-- **The tables of footnotes stay consistent** in every run of calls, with whichever labels a
document starts with: none, or those of the references in its content. -/
theorem run_consistent (labels : List String) (calls : List Call) :
    Consistent (ofLabels labels) calls := by
  let σ := Numbering.ofLabels labels
  have hstart : σ.order.Nodup := by
    rw [Numbering.order_ofLabels]
    exact nodup_eraseDups labels
  have hnew (label : String) : label ∉ σ.recorded := by
    rw [Numbering.recorded_ofLabels]
    exact List.not_mem_nil
  -- What the tables are and give back is what the numbering is and gives back.
  have hrun (calls : List Call) := (Tabulates.ofLabels labels).run calls
  have horder (calls : List Call) : ((ofLabels labels).run calls).2.order = (σ.run calls).2.order :=
    (hrun calls).2.order
  have hindexOf (calls : List Call) (label : String) :
      ((ofLabels labels).run calls).2.indexOf? label = (σ.run calls).2.indexOf? label :=
    (hrun calls).2.numbers label
  have hnodup := Numbering.nodup_order_run hstart calls
  exact {
    nodup := horder calls ▸ hnodup
    indexOf?_iff := fun label i => by
      rw [hindexOf, horder]
      exact Numbering.indexOf?_eq_some_iff hnodup
    kept := fun later label i h => by
      rw [hindexOf] at h ⊢
      exact Numbering.indexOf?_mono (Numbering.order_prefix_run_append σ calls later) h
    given := fun event he => by
      rw [hindexOf]
      exact Numbering.indexOf?_event ((hrun calls).1 ▸ he)
    counted := fun label => by
      rw [(hrun calls).2.counts, (hrun calls).1, Numbering.count_recorded_run,
        List.count_eq_zero_of_not_mem (hnew label), Nat.zero_add]
    first := fun label => by
      rw [(hrun calls).2.firstIds, (hrun calls).1, Numbering.map_id_firstAnchor? (hnew label)]
    ids := (hrun calls).1 ▸ Numbering.nodup_ids List.prefix_rfl
    back := fun label i hi later hrecord => by
      rw [hindexOf] at hi
      obtain ⟨first, hfirst, hid⟩ :=
        Numbering.firstAnchor?_run List.prefix_rfl (hnew label) hrecord
      obtain ⟨-, hnumber⟩ := Numbering.indexOf?_eq_some_iff_idxOf.1
        (Numbering.indexOf?_mono (Numbering.order_prefix_run_append σ calls later) hi)
      refine ⟨first, (hrun (calls ++ later)).1 ▸ hfirst, ?_⟩
      rw [(hrun calls).2.backlinkTarget_eq, Numbering.backlinkTarget_of_indexOf? hi, hid,
        ← hnumber] }

-- the note of a label that has come up but has no reference yet already points to the first one
example : (ofLabels ["a"]).backlinkTarget "a" 1 = "fnref1" ∧
    ((ofLabels ["a"]).run [.record "b", .record "a", .record "b", .record "a"]).1.filterMap
      Event.id? = ["fnref2", "fnref1", "fnref2-2", "fnref1-2"] := by decide +kernel

end Resolver

end DocMarkup
