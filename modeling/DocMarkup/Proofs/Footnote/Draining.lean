import DocMarkup.Proofs.Footnote.Order
import DocMarkup.Render.Endnotes

/-!
# The loop over the notes

The notes are rendered by a loop over the order of footnotes, and the order grows while the loop
runs. Here the loop is a relation without a bound, and the bounded loop is shown to be a run of
it to its end wherever all labels that can come up are among as many as the bound says. What a
note records is its label's list of citations, and that is all the relation needs to know about
rendering: the order after a run is the order before it with all citations of the notes that were
rendered.

## Main definitions

* `Endnotes.Drains` : a run of the loop from a place in the order to its end.
* `Endnotes.Runs` : both runs of the loop, with the defined labels assigned in between.
* `Endnotes.Cites` : what the notes of each label record.
* `Reaches` : the labels that are reached from some labels through citations.

## Main results

* `Endnotes.drains_drain`, `Endnotes.exists_runs` : the loop ends within its bound.
* `Endnotes.Drains.order_eq`, `Endnotes.Drains.order_eq_take_append` : the order after a run.
* `Endnotes.Drains.mem_order_iff_reaches` : a run from the beginning numbers what is reached.
-/

namespace DocMarkup

/-- The labels that are reached from the labels of `start` through citations. -/
inductive Reaches (cites : String → List String) (start : List String) : String → Prop
  | start {label} (h : label ∈ start) : Reaches cites start label
  | cite {label next} (h : Reaches cites start label) (hn : next ∈ cites label) :
      Reaches cites start next

namespace Endnotes

/-- The loop over the order from the place `next` on, run to its end: the numberings before and
after, the labels whose notes were rendered and the notes, in order. -/
inductive Drains (e : Endnotes) : Nat → Numbering → List String → List Html → Numbering → Prop
  | done {next σ} (h : σ.order[next]? = none) : Drains e next σ [] [] σ
  | step {next σ label labels items τ} (h : σ.order[next]? = some label)
      (rest : Drains e (next + 1) (e.note label (next + 1) σ).2 labels items τ) :
      Drains e next σ (label :: labels) ((e.note label (next + 1) σ).1 :: items) τ

/-- The notes of a document: the loop from the start of the order on, then numbers for all
defined labels, then the loop from where it ended. -/
inductive Runs (e : Endnotes) (σ : Numbering) :
    List String → List String → List Html → Numbering → Prop
  | intro {reached others items items' σ' τ} (first : Drains e 0 σ reached items σ')
      (second : Drains e reached.length
        ((e.footnotes.map Prod.fst).foldl Numbering.assign σ') others items' τ) :
      Runs e σ reached others (items ++ items') τ

/-- The note of a label records the citations of the label, whatever was recorded before. -/
def Cites (e : Endnotes) (cites : String → List String) : Prop :=
  ∀ label index σ, (e.note label index σ).2 = (cites label).foldl Numbering.record σ

variable {e : Endnotes} {cites : String → List String} {next : Nat} {σ τ : Numbering}
  {labels : List String} {items : List Html}

theorem Cites.order_note (he : e.Cites cites) (hσ : σ.order.Nodup) (label : String)
    (index : Nat) : (e.note label index σ).2.order = (σ.order ++ cites label).eraseDups := by
  rw [he, Numbering.order_foldl_record _ hσ]

theorem Cites.nodup_note (he : e.Cites cites) (hσ : σ.order.Nodup) (label : String)
    (index : Nat) : (e.note label index σ).2.order.Nodup := by
  rw [he.order_note hσ]
  exact nodup_eraseDups _

/-! ### One run -/

namespace Drains

theorem length_items (h : Drains e next σ labels items τ) : items.length = labels.length := by
  induction h with
  | done => rfl
  | step _ _ ih => rw [List.length_cons, List.length_cons, ih]

/-- No label loses its number in a run. -/
theorem order_prefix (h : Drains e next σ labels items τ) (he : e.Cites cites) :
    σ.order <+: τ.order := by
  induction h with
  | done => exact List.prefix_rfl
  | step _ _ ih =>
    refine List.IsPrefix.trans ?_ ih
    rw [he]
    exact Numbering.order_prefix_foldl_record _ _

/-- The order after a run is the order before it with the citations of all notes rendered. -/
theorem order_eq (h : Drains e next σ labels items τ) (he : e.Cites cites)
    (hσ : σ.order.Nodup) : τ.order = (σ.order ++ labels.flatMap cites).eraseDups := by
  induction h with
  | done => rw [List.flatMap_nil, List.append_nil, eraseDups_of_nodup hσ]
  | step _ _ ih =>
    rw [ih (he.nodup_note hσ _ _), he.order_note hσ, eraseDups_append_eraseDups,
      List.append_assoc, List.flatMap_cons]

theorem recorded_eq (h : Drains e next σ labels items τ) (he : e.Cites cites) :
    τ.recorded = σ.recorded ++ labels.flatMap cites := by
  induction h with
  | done => rw [List.flatMap_nil, List.append_nil]
  | step _ _ ih =>
    rw [ih, he, Numbering.recorded_foldl_record, List.append_assoc, List.flatMap_cons]

theorem nodup_order (h : Drains e next σ labels items τ) (he : e.Cites cites)
    (hσ : σ.order.Nodup) : τ.order.Nodup := by
  rw [h.order_eq he hσ]
  exact nodup_eraseDups _

/-- A run renders one note for each place in the order from its start on. -/
theorem order_eq_take_append (h : Drains e next σ labels items τ) (he : e.Cites cites)
    (hσ : σ.order.Nodup) : τ.order = σ.order.take next ++ labels := by
  induction h with
  | done h =>
    rw [List.append_nil, List.take_of_length_le (List.getElem?_eq_none_iff.1 h)]
  | @step next σ label labels items τ h _ ih =>
    obtain ⟨hlt, rfl⟩ := List.getElem?_eq_some_iff.1 h
    rw [ih (he.nodup_note hσ _ _), he.order_note hσ, eraseDups_append_of_nodup hσ,
      List.take_append_of_le_length hlt, List.take_succ_eq_append_getElem hlt,
      List.append_assoc, List.singleton_append]

/-- What holds of the note of each label in the order holds of all notes of a run. -/
theorem exists_label (h : Drains e next σ labels items τ) (he : e.Cites cites)
    (hσ : σ.order.Nodup) {P : String → Nat → Html → Prop}
    (hP : ∀ (σ : Numbering) label i, σ.order.Nodup → σ.order[i]? = some label →
      P label (i + 1) (e.note label (i + 1) σ).1)
    {i : Nat} {item : Html} (hi : items[i]? = some item) :
    ∃ label, labels[i]? = some label ∧ P label (next + i + 1) item := by
  induction h generalizing i with
  | done => cases hi
  | step hlabel _ ih =>
    cases i with
    | zero =>
      cases hi
      exact ⟨_, rfl, hP _ _ _ hσ hlabel⟩
    | succ i =>
      rw [← Nat.add_assoc, Nat.add_right_comm _ i 1]
      exact ih (he.nodup_note hσ _ _) hi

/-- No note is rendered before its label has come up: each label is one of those numbered at the
start or is cited by a note rendered before its own. -/
theorem mem_of_labels_eq (h : Drains e next σ labels items τ) (he : e.Cites cites)
    (hσ : σ.order.Nodup) {before after : List String} {label : String}
    (hl : labels = before ++ label :: after) : label ∈ σ.order ++ before.flatMap cites := by
  induction h generalizing before with
  | done => exact absurd hl (by simp)
  | step h _ ih =>
    cases before with
    | nil =>
      cases hl
      rw [List.flatMap_nil, List.append_nil]
      exact List.mem_of_getElem? h
    | cons b before =>
      cases hl
      have hm := ih (he.nodup_note hσ _ _) rfl
      rw [he.order_note hσ, List.mem_append, List.mem_eraseDups, ← List.mem_append,
        List.append_assoc] at hm
      exact hm

/-- What a run numbers has every property that the labels before it have and citations keep. -/
theorem forall_mem_order (h : Drains e next σ labels items τ) (he : e.Cites cites)
    {P : String → Prop} (hP : ∀ label, P label → ∀ l ∈ cites label, P l)
    (hσ : σ.order.Nodup) (h₀ : ∀ label ∈ σ.order, P label) : ∀ label ∈ τ.order, P label := by
  induction h with
  | done => exact h₀
  | step h _ ih =>
    refine ih (he.nodup_note hσ _ _) fun l hl => ?_
    rw [he.order_note hσ, List.mem_eraseDups, List.mem_append] at hl
    rcases hl with hl | hl
    · exact h₀ l hl
    · exact hP _ (h₀ _ (List.mem_of_getElem? h)) l hl

/-- A run from the beginning numbers the labels that are reached through citations from those
numbered at the start, and no others. -/
theorem mem_order_iff_reaches (h : Drains e 0 σ labels items τ) (he : e.Cites cites)
    (hσ : σ.order.Nodup) {label : String} :
    label ∈ τ.order ↔ Reaches cites σ.order label := by
  constructor
  · exact h.forall_mem_order he (fun l hl m hm => .cite hl hm) hσ (fun l hl => .start hl) label
  · intro hr
    have horder := h.order_eq he hσ
    have hlabels : τ.order = labels := h.order_eq_take_append he hσ
    induction hr with
    | start hl =>
      rw [horder, List.mem_eraseDups, List.mem_append]
      exact Or.inl hl
    | cite _ hn ih =>
      rw [horder, List.mem_eraseDups, List.mem_append, List.mem_flatMap, ← hlabels]
      exact Or.inr ⟨_, ih, hn⟩

end Drains

theorem Runs.length_items {others : List String} (h : Runs e σ labels others items τ) :
    items.length = (labels ++ others).length := by
  obtain ⟨first, second⟩ := h
  rw [List.length_append, List.length_append, first.length_items, second.length_items]

/-! ### The bounded loop -/

/-- The endnotes section leaves the numbering of its notes. -/
theorem render_snd : (e.render σ).2 = (e.notes σ).2 := by
  rw [render]
  change ((if (e.notes σ).1.isEmpty = true then _ else _ : Rendering (Option Html)) _).2 = _
  split <;> rfl

/-- What the endnotes are made of their notes. -/
theorem render_fst_of_notes (e : Endnotes) (σ : Numbering) :
    (e.render σ).1 =
      if (e.notes σ).1.isEmpty then none
      else some (Single.element e.overrides "section"
        { kind := .endnotes
          node := e.document
          key := some "endnotes"
          props := Single.single "role" "doc-endnotes"
          inputs := { order := (e.notes σ).2.order }
          children := [.element "hr" (some "hr") ∅ [],
            .element "ol" (some "ol") ∅ (e.notes σ).1] }) := by
  rw [render]
  change ((if (e.notes σ).1.isEmpty = true then _ else _ : Rendering (Option Html)) _).1 = _
  split <;> rfl

/-- The notes of a document: the loop from the start of the order on, and then, with all defined
labels numbered, from where it ended. -/
theorem notes_run (e : Endnotes) (σ : Numbering) :
    e.notes σ =
      let cited := e.drain e.bound 0 σ
      let others := e.drain e.bound cited.1.length
        ((e.footnotes.map Prod.fst).foldl Numbering.assign cited.2)
      (cited.1 ++ others.1, others.2) := rfl

theorem get_bind {α : Type} (f : Numbering → Rendering α) :
    (get >>= f : Rendering α) σ = f σ σ := rfl

theorem drain_of_none (h : σ.order[next]? = none) (fuel : Nat) :
    e.drain (fuel + 1) next σ = ([], σ) := by
  rw [drain, get_bind, h]
  rfl

theorem drain_of_some {label : String} (h : σ.order[next]? = some label) (fuel : Nat) :
    e.drain (fuel + 1) next σ =
      let note := e.note label (next + 1) σ
      (note.1 :: (e.drain fuel (next + 1) note.2).1, (e.drain fuel (next + 1) note.2).2) := by
  rw [drain, get_bind, h]
  rfl

/-- No label loses its number while the notes are rendered. -/
theorem Runs.order_prefix {others : List String} (h : Runs e σ labels others items τ)
    (he : e.Cites cites) : σ.order <+: τ.order := by
  obtain ⟨first, second⟩ := h
  exact (first.order_prefix he).trans
    ((Numbering.order_prefix_foldl_assign _ _).trans (second.order_prefix he))

/-- The bounded loop is a run of the loop to its end, if all labels that are numbered or cited
are among no more labels than the places passed and the bound together. -/
theorem drains_drain (he : e.Cites cites) {all : List String}
    (hcites : ∀ label, cites label ⊆ all) {fuel : Nat} (hσ : σ.order.Nodup)
    (hall : σ.order ⊆ all) (hfuel : all.length ≤ next + fuel) :
    ∃ labels, Drains e next σ labels (e.drain fuel next σ).1 (e.drain fuel next σ).2 := by
  induction fuel generalizing next σ with
  | zero =>
    have hle : σ.order.length ≤ next := Nat.le_trans (hσ.length_le_of_subset hall) hfuel
    exact ⟨[], .done (List.getElem?_eq_none_iff.2 hle)⟩
  | succ fuel ih =>
    cases h : σ.order[next]? with
    | none =>
      rw [drain_of_none h]
      exact ⟨[], .done h⟩
    | some label =>
      have hnext : (e.note label (next + 1) σ).2.order ⊆ all := fun l hl => by
        rw [he.order_note hσ, List.mem_eraseDups, List.mem_append] at hl
        exact hl.elim (fun h => hall h) fun h => hcites label h
      have hfuel : all.length ≤ next + 1 + fuel := by omega
      obtain ⟨labels, hrest⟩ := ih (he.nodup_note hσ label (next + 1)) hnext hfuel
      rw [drain_of_some h]
      exact ⟨label :: labels, .step h hrest⟩

/-- The notes of a document are those of both runs of the loop, if the bound is that of some
labels among which all are that are numbered, defined or cited. -/
theorem exists_runs (he : e.Cites cites) {all : List String}
    (hcites : ∀ label, cites label ⊆ all) (hdefined : e.footnotes.map Prod.fst ⊆ all)
    (hσ : σ.order.Nodup) (hall : σ.order ⊆ all) (hbound : all.length ≤ e.bound) :
    ∃ reached others, Runs e σ reached others (e.notes σ).1 (e.notes σ).2 := by
  obtain ⟨reached, first⟩ := drains_drain he hcites hσ hall
    (Nat.le_trans hbound (Nat.le_add_left _ 0))
  have hσ₁ := first.nodup_order he hσ
  have hnodup : ((e.footnotes.map Prod.fst).foldl Numbering.assign
      (e.drain e.bound 0 σ).2).order.Nodup := by
    rw [Numbering.order_foldl_assign _ hσ₁]
    exact nodup_eraseDups _
  have hmid : ((e.footnotes.map Prod.fst).foldl Numbering.assign
      (e.drain e.bound 0 σ).2).order ⊆ all := fun l hl => by
    rw [Numbering.order_foldl_assign _ hσ₁, List.mem_eraseDups, List.mem_append] at hl
    refine hl.elim (fun h => ?_) fun h => hdefined h
    exact first.forall_mem_order he (P := (· ∈ all)) (fun label _ l hl => hcites label hl) hσ
      (fun l hl => hall hl) l h
  have hfuel : all.length ≤ reached.length + e.bound :=
    Nat.le_trans hbound (Nat.le_add_left _ _)
  obtain ⟨others, second⟩ := drains_drain he hcites hnodup hmid hfuel
  refine ⟨reached, others, ?_⟩
  have hrun := Runs.intro first second
  rw [← first.length_items] at hrun
  exact hrun

end Endnotes

end DocMarkup
