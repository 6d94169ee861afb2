import DocMarkup.Proofs.Footnote.Identifier
import DocMarkup.Proofs.Footnote.Order

/-!
# What a run of calls gives back

Labels are given numbers and references to them are recorded, in whichever order. A label keeps the
number that it was given, no two references get the same identifier, and the first reference that is
recorded to a label gets the identifier that belongs to the number of the label alone.

## Main definitions

* `Numbering.Call`, `Numbering.Event`, `Numbering.run` : calls, calls with what they gave back, and
  runs.
* `Numbering.firstAnchor?` : what the first recorded reference to a label shows.

## Main results

* `Numbering.indexOf?_eq_some_iff` : the number of a label is its place in the order.
* `Numbering.indexOf?_event` : the numbers that were given back stay right.
* `Numbering.nodup_ids` : no two references get the same identifier.
* `Numbering.count_recorded_run` : how many references are recorded.
* `Numbering.firstAnchor?_run`, `Numbering.map_id_firstAnchor?` : the identifier of the first one.
-/

namespace DocMarkup.Numbering

/-- A call on a numbering. -/
inductive Call where
  /-- Asks for the number of a label. -/
  | assign (label : String)
  /-- Records a reference. -/
  | record (label : String)
  deriving DecidableEq

/-- A call on a numbering with what it gave back. -/
inductive Event where
  | assigned (label : String) (index : Nat)
  | recorded (label : String) (anchor : Anchor)
  deriving DecidableEq

namespace Call

/-- The label that the call is about. -/
def label : Call → String
  | assign label | record label => label

end Call

namespace Event

/-- The label that the call was about. -/
def label : Event → String
  | assigned label _ | recorded label _ => label

/-- The number that was given back. -/
def index : Event → Nat
  | assigned _ index => index
  | recorded _ anchor => anchor.index

/-- The identifier of the reference that was recorded. -/
def id? : Event → Option String
  | assigned .. => none
  | recorded _ anchor => some anchor.id

/-- What the reference shows, if the call recorded one to the label. -/
def anchorOf? (label : String) : Event → Option Anchor
  | assigned .. => none
  | recorded l anchor => if l = label then some anchor else none

theorem label_of_anchorOf? {label : String} {event : Event} {anchor : Anchor}
    (h : event.anchorOf? label = some anchor) : event.label = label := by
  cases event with
  | assigned => cases h
  | recorded l =>
    rw [anchorOf?] at h
    split at h
    · assumption
    · cases h

end Event

/-- What happens in a call, and the numbering after it. -/
def perform (σ : Numbering) : Call → Event × Numbering
  | .assign label => (.assigned label (σ.index label), σ.assign label)
  | .record label => (.recorded label (σ.anchor label), σ.record label)

/-- What happens in calls one after the other, and the numbering after them. -/
def run (σ : Numbering) : List Call → List Event × Numbering
  | [] => ([], σ)
  | call :: rest =>
    let (event, σ) := σ.perform call
    let (events, σ) := run σ rest
    (event :: events, σ)

/-- What the first recorded reference to a label shows. -/
def firstAnchor? (label : String) (events : List Event) : Option Anchor :=
  events.findSome? (Event.anchorOf? label)

variable {σ : Numbering} {label : String} {order : List String}

/-! ### The order in a run -/

theorem run_cons (σ : Numbering) (call : Call) (calls : List Call) :
    σ.run (call :: calls) = ((σ.perform call).1 :: ((σ.perform call).2.run calls).1,
      ((σ.perform call).2.run calls).2) := rfl

theorem order_perform (σ : Numbering) (call : Call) :
    (σ.perform call).2.order = (σ.assign call.label).order := by
  cases call <;> rfl

theorem nodup_order_run (hσ : σ.order.Nodup) (calls : List Call) :
    (σ.run calls).2.order.Nodup := by
  induction calls generalizing σ with
  | nil => exact hσ
  | cons call calls ih =>
    have hnext : (σ.perform call).2.order.Nodup := by
      rw [order_perform]
      exact nodup_order_assign hσ call.label
    exact ih hnext

theorem order_prefix_run (σ : Numbering) (calls : List Call) :
    σ.order <+: (σ.run calls).2.order := by
  induction calls generalizing σ with
  | nil => exact List.prefix_rfl
  | cons call calls ih =>
    have hnext : σ.order <+: (σ.perform call).2.order := by
      rw [order_perform]
      exact order_prefix_assign σ call.label
    exact hnext.trans (ih _)

/-- A run goes on from where it stands. -/
theorem run_append (σ : Numbering) (calls later : List Call) :
    σ.run (calls ++ later) =
      ((σ.run calls).1 ++ ((σ.run calls).2.run later).1, ((σ.run calls).2.run later).2) := by
  induction calls generalizing σ with
  | nil => rfl
  | cons call calls ih => rw [List.cons_append, run_cons, ih, run_cons, List.cons_append]

theorem order_prefix_run_append (σ : Numbering) (calls later : List Call) :
    (σ.run calls).2.order <+: (σ.run (calls ++ later)).2.order := by
  rw [run_append]
  exact order_prefix_run _ later

/-- The number of a label is its place in the order, from 1. -/
theorem indexOf?_eq_some_iff (hσ : σ.order.Nodup) {i : Nat} :
    σ.indexOf? label = some i ↔ 0 < i ∧ σ.order[i - 1]? = some label := by
  rw [indexOf?_eq_some_iff_idxOf]
  constructor
  · rintro ⟨hmem, rfl⟩
    exact ⟨Nat.succ_pos _, List.getElem?_idxOf hmem⟩
  · rintro ⟨hpos, h⟩
    obtain ⟨hlt, rfl⟩ := List.getElem?_eq_some_iff.1 h
    refine ⟨List.getElem_mem hlt, ?_⟩
    rw [hσ.idxOf_getElem _ hlt, Nat.sub_add_cancel hpos]

/-- A label that has a number keeps it in every longer order. -/
theorem indexOf?_mono {τ : Numbering} (h : σ.order <+: τ.order) {i : Nat}
    (hi : σ.indexOf? label = some i) : τ.indexOf? label = some i := by
  obtain ⟨hmem, rfl⟩ := indexOf?_eq_some_iff_idxOf.1 hi
  obtain ⟨later, hlater⟩ := h
  refine indexOf?_eq_some_iff_idxOf.2 ⟨hlater ▸ List.mem_append_left _ hmem, ?_⟩
  rw [← hlater, List.idxOf_append, if_pos hmem]

/-! ### What a run gives back -/

section Run

variable {calls : List Call}

/-- The number that a call gives back is that of its label. -/
theorem indexOf?_perform (σ : Numbering) (call : Call) :
    (σ.perform call).2.indexOf? (σ.perform call).1.label = some (σ.perform call).1.index := by
  rw [indexOf?_eq_some_iff_idxOf]
  cases call with
  | assign label => exact ⟨mem_order_record σ label, index_eq_idxOf σ label⟩
  | record label => exact ⟨mem_order_record σ label, index_eq_idxOf σ label⟩

/-- Every number that was given back is still that of its label. -/
theorem indexOf?_event {event : Event} (he : event ∈ (σ.run calls).1) :
    (σ.run calls).2.indexOf? event.label = some event.index := by
  induction calls generalizing σ with
  | nil => exact absurd he List.not_mem_nil
  | cons call calls ih =>
    rcases List.mem_cons.1 he with rfl | he
    · exact indexOf?_mono (order_prefix_run _ calls) (indexOf?_perform σ call)
    · exact ih he

/-- The identifier of a reference that is recorded tells the number of its label, and a number of
its own that is greater than that of all references to the label before. -/
theorem exists_id_event (h : (σ.run calls).2.order <+: order) {event : Event}
    (he : event ∈ (σ.run calls).1) {id : String} (hid : event.id? = some id) :
    ∃ n, σ.recorded.count event.label < n ∧
      id = referenceId (order.idxOf event.label + 1) n := by
  induction calls generalizing σ with
  | nil => exact absurd he List.not_mem_nil
  | cons call calls ih =>
    have hnext := (order_prefix_run _ calls).trans h
    rcases List.mem_cons.1 he with rfl | he
    · cases call with
      | assign => cases hid
      | record label =>
        cases hid
        refine ⟨_, Nat.lt_succ_self _, ?_⟩
        rw [anchor, index_eq_of_prefix hnext]
        rfl
    · obtain ⟨n, hn, hidn⟩ := ih h he
      refine ⟨n, Nat.lt_of_le_of_lt ?_ hn, hidn⟩
      cases call with
      | assign label => exact Nat.le_of_eq (congrArg (List.count _) (recorded_assign σ label).symm)
      | record => exact List.Sublist.count_le _ (List.sublist_append_left _ _)

/-- **No two references get the same identifier.** -/
theorem nodup_ids (h : (σ.run calls).2.order <+: order) :
    ((σ.run calls).1.filterMap Event.id?).Nodup := by
  induction calls generalizing σ with
  | nil => exact List.nodup_nil
  | cons call calls ih =>
    cases call with
    | assign => exact ih h
    | record label =>
      refine List.nodup_cons.2 ⟨fun hmem => ?_, ih h⟩
      have hnext := (order_prefix_run (σ.record label) calls).trans h
      obtain ⟨event, he, hid⟩ := List.mem_filterMap.1 hmem
      obtain ⟨n, hn, hsame⟩ := exists_id_event (σ := σ.record label) h he hid
      rw [anchor, index_eq_of_prefix hnext, referenceId_inj, Nat.add_right_cancel_iff,
        List.idxOf_inj (hnext.subset (mem_order_record σ label))] at hsame
      -- a later reference to the same label has a greater number
      obtain ⟨hlabel, rfl⟩ := hsame
      rw [← hlabel] at hn
      simp [record] at hn

/-- A run records the references that it gives back. -/
theorem count_recorded_run (σ : Numbering) (calls : List Call) (label : String) :
    (σ.run calls).2.recorded.count label =
      σ.recorded.count label + ((σ.run calls).1.filterMap (Event.anchorOf? label)).length := by
  induction calls generalizing σ with
  | nil => rfl
  | cons call calls ih =>
    rw [run_cons, ih, List.filterMap_cons]
    cases call with
    | assign l => rw [perform, recorded_assign, Event.anchorOf?]
    | record l =>
      rw [perform, record, Event.anchorOf?, List.count_append]
      by_cases hl : l = label
      · simp [hl, Nat.add_assoc, Nat.add_comm]
      · simp [hl]

/-- The first reference to a label that is recorded in a run has the identifier of a first
reference. -/
theorem firstAnchor?_run (h : (σ.run calls).2.order <+: order) (hnew : label ∉ σ.recorded)
    (hrecord : Call.record label ∈ calls) :
    ∃ anchor, firstAnchor? label (σ.run calls).1 = some anchor ∧
      anchor.id = referenceId (order.idxOf label + 1) 1 := by
  induction calls generalizing σ with
  | nil => exact absurd hrecord List.not_mem_nil
  | cons call calls ih =>
    cases call with
    | assign l =>
      exact ih h (by rwa [recorded_assign]) ((List.mem_cons.1 hrecord).resolve_left nofun)
    | record l =>
      by_cases hl : l = label
      · subst hl
        refine ⟨σ.anchor l, by simp [run_cons, perform, firstAnchor?, Event.anchorOf?], ?_⟩
        rw [anchor, index_eq_of_prefix ((order_prefix_run (σ.record l) calls).trans h),
          List.count_eq_zero_of_not_mem hnew]
      · have hlater : label ∉ (σ.record l).recorded := by
          simp [record, hnew, Ne.symm hl]
        have hcalls := (List.mem_cons.1 hrecord).resolve_left fun he => hl (Call.record.inj he).symm
        obtain ⟨first, hfirst, hid⟩ := ih h hlater hcalls
        refine ⟨first, ?_, hid⟩
        rw [← hfirst, run_cons, firstAnchor?, List.findSome?_cons, perform, Event.anchorOf?,
          if_neg hl]
        rfl

theorem mem_recorded_run :
    label ∈ (σ.run calls).2.recorded ↔ label ∈ σ.recorded ∨ Call.record label ∈ calls := by
  induction calls generalizing σ with
  | nil => simp [run]
  | cons call calls ih =>
    rw [run_cons, ih]
    cases call with
    | assign l => simp [perform, recorded_assign]
    | record l => simp [perform, record, or_assoc]

/-- The first reference to a label that a run gives back tells by its identifier which number the
label has. There is none if no reference to the label has been recorded. -/
theorem map_id_firstAnchor? (hnew : label ∉ σ.recorded) :
    (firstAnchor? label (σ.run calls).1).map Anchor.id =
      if label ∈ (σ.run calls).2.recorded then
        some (referenceId ((σ.run calls).2.index label) 1) else none := by
  split
  · rename_i hmem
    have hrecord := (mem_recorded_run.1 hmem).resolve_left hnew
    obtain ⟨first, hfirst, hid⟩ := firstAnchor?_run List.prefix_rfl hnew hrecord
    obtain ⟨event, he, hevent⟩ := List.exists_of_findSome?_eq_some hfirst
    have hindex := Event.label_of_anchorOf? hevent ▸ indexOf?_event he
    rw [hfirst, Option.map_some, hid, index, hindex, Option.getD_some,
      (indexOf?_eq_some_iff_idxOf.1 hindex).2]
  · rename_i hmem
    have hcount := count_recorded_run σ calls label
    rw [List.count_eq_zero_of_not_mem hmem, List.count_eq_zero_of_not_mem hnew,
      Nat.zero_add] at hcount
    rw [firstAnchor?, ← List.head?_filterMap, List.length_eq_zero_iff.1 hcount.symm]
    rfl

end Run

end DocMarkup.Numbering
