import DocMarkup.Proofs.Dict
import DocMarkup.Proofs.Render.DocTree

/-!
# The order of the endnotes of a document

The endnotes of every document come to an end, whatever its footnotes refer to. The order that
they leave has four parts. First come the labels that the content mentions. Then come the labels
that are reached from these through the bodies of footnotes, as the bodies bring them up one after
the other. Then come the defined labels that nothing reached, in ascending order, and last what
their bodies bring up.

## Main definitions

* `DocTree.Ordered` : the four parts of an order.
* `DocTree.Complete` : no label is left out and none has two notes.

## Main results

* `DocTree.exists_endnote_runs` : the loop over the notes of a document ends.
* `DocTree.endnotes_ordered` : the order that it leaves.
-/

namespace DocMarkup

namespace DocTree

/-- The four parts of the order of a document's footnotes. -/
structure Ordered (d : DocTree) (mentioned reached remaining late : List String) : Prop where
  /-- The labels that the content mentions, as they first come up. -/
  mentioned_eq : mentioned = d.mentions.eraseDups
  /-- The labels that are reached from these through the bodies of defined footnotes. -/
  mem_reached_iff : ∀ label, label ∈ mentioned ++ reached ↔ Reaches d.cites mentioned label
  /-- They are in the order in which the bodies bring them up. -/
  reached_eq : mentioned ++ reached =
    (mentioned ++ (mentioned ++ reached).flatMap d.cites).eraseDups
  /-- A label has come up before its own body is rendered. -/
  cited_before : ∀ before label after, mentioned ++ reached = before ++ label :: after →
    label ∈ mentioned ++ before.flatMap d.cites
  /-- The defined labels that are left. -/
  remaining_eq : remaining = d.footnotes.keys.filter (· ∉ mentioned ++ reached)
  /-- They are in ascending order. -/
  ascending : remaining.Pairwise (· < ·)
  /-- The labels that the bodies of these bring up. -/
  late_eq : mentioned ++ reached ++ remaining ++ late =
    (mentioned ++ reached ++ remaining ++ remaining.flatMap d.cites).eraseDups

/-- The notes that a document's endnotes end up with, by their labels: one for each label that the
document numbers. -/
structure Complete (d : DocTree) (rendered : List String) (τ : Numbering) : Prop where
  /-- The labels are numbered in the order of their notes. -/
  order_eq : τ.order = rendered
  nodup : rendered.Nodup
  /-- They are the labels that the content mentions, that are defined, or that a body cites. -/
  mem_iff : ∀ label, label ∈ rendered ↔ label ∈ d.mentions ∨ label ∈ d.footnotes.keys ∨
    ∃ e ∈ d.footnotes.entries, label ∈ Node.citedAll e.2.children
  /-- The body of each defined footnote is rendered once. -/
  count_eq_one : ∀ label ∈ d.footnotes.keys, rendered.count label = 1
  /-- Every reference in the content and in these bodies is recorded once. -/
  recorded_eq : τ.recorded = Node.citedAll d.children ++ rendered.flatMap d.cites

variable {d : DocTree} {ov : Overrides}

/-! ### What can be numbered -/

theorem cites_of_mem {label : String} {f : Footnote} (h : (label, f) ∈ d.footnotes.entries) :
    d.cites label = Node.citedAll f.children := by
  rw [cites, body, Dict.get?_eq_some_iff.2 h]
  rfl

theorem cites_of_notMem {label : String} (h : label ∉ d.footnotes.keys) :
    d.cites label = [] := by
  rw [cites, body, Dict.get?_eq_none_iff.2 h]
  rfl

/-- A label is cited by a note exactly if it is cited in the body of a footnote. -/
theorem mem_cites_iff {label : String} :
    (∃ l, label ∈ d.cites l) ↔
      ∃ e ∈ d.footnotes.entries, label ∈ Node.citedAll e.2.children := by
  constructor
  · rintro ⟨l, hl⟩
    by_cases hk : l ∈ d.footnotes.keys
    · obtain ⟨⟨_, f⟩, he, rfl⟩ := List.mem_map.1 hk
      exact ⟨(_, f), he, cites_of_mem he ▸ hl⟩
    · exact absurd hl (by rw [cites_of_notMem hk]; exact List.not_mem_nil)
  · rintro ⟨⟨l, f⟩, he, hl⟩
    exact ⟨l, by rwa [cites_of_mem he]⟩

/-- All labels that can be numbered: those that the document mentions or defines, and those that
the bodies of its footnotes mention. -/
def labels (d : DocTree) : List String :=
  d.mentions ++ d.footnotes.keys ++
    d.footnotes.entries.flatMap fun e => Node.mentionsAll e.2.children

theorem length_labels : d.labels.length = (d.endnotes ov).bound := by
  have hsum (es : List (String × Footnote)) :
      (es.flatMap fun e => Node.mentionsAll e.2.children).length =
        es.foldr (fun e n => (Node.mentionsAll e.2.children).length + n) 0 := by
    induction es with
    | nil => rfl
    | cons e es ih => rw [List.flatMap_cons, List.length_append, ih, List.foldr_cons]
  rw [labels, List.length_append, List.length_append, hsum, Dict.keys, List.length_map]
  rfl

theorem cites_subset_labels (label : String) : d.cites label ⊆ d.labels := by
  intro l hl
  obtain ⟨e, he, hl⟩ := mem_cites_iff.1 ⟨label, hl⟩
  exact List.mem_append_right _
    (List.mem_flatMap.2 ⟨e, he, Node.citedAll_subset_mentionsAll _ hl⟩)

theorem nodup_order_content : (d.content ov).2.order.Nodup := by
  rw [order_content]
  exact nodup_eraseDups _

/-- **The loop over the notes of a document ends**: the notes are those of both of its runs. -/
theorem exists_endnote_runs (d : DocTree) (ov : Overrides) :
    ∃ reached others, (d.endnotes ov).Runs (d.content ov).2 reached others
      ((d.endnotes ov).notes (d.content ov).2).1 ((d.endnotes ov).notes (d.content ov).2).2 := by
  refine Endnotes.exists_runs (d.cites_endnotes ov) cites_subset_labels ?_ nodup_order_content ?_
    (Nat.le_of_eq length_labels)
  · exact fun l hl => List.mem_append_left _ (List.mem_append_right _ hl)
  · intro l hl
    rw [order_content, List.mem_eraseDups] at hl
    exact List.mem_append_left _ (List.mem_append_left _ hl)

/-! ### The runs over the notes of a document -/

section Runs

open Endnotes

variable {reached others : List String} {items : List Html} {σ τ : Numbering}

/-- The first run numbers the labels whose notes it renders. -/
theorem order_of_first (first : Drains (d.endnotes ov) 0 (d.content ov).2 reached items σ) :
    σ.order = reached :=
  first.order_eq_take_append (d.cites_endnotes ov) nodup_order_content

theorem first_eq (first : Drains (d.endnotes ov) 0 (d.content ov).2 reached items σ) :
    reached = (d.mentions.eraseDups ++ reached.flatMap d.cites).eraseDups := by
  rw [← d.order_content ov, ← first.order_eq (d.cites_endnotes ov) nodup_order_content,
    order_of_first first]

theorem nodup_first (first : Drains (d.endnotes ov) 0 (d.content ov).2 reached items σ) :
    reached.Nodup := by
  rw [first_eq first]
  exact nodup_eraseDups _

/-- Between the runs the defined labels that are left get their numbers. -/
theorem order_between (first : Drains (d.endnotes ov) 0 (d.content ov).2 reached items σ) :
    (((d.endnotes ov).footnotes.map Prod.fst).foldl Numbering.assign σ).order =
      reached ++ d.footnotes.keys.filter (· ∉ reached) := by
  have hσ : σ.order.Nodup := by
    rw [order_of_first first]
    exact nodup_first first
  have hleft : d.footnotes.keys.removeAll reached = d.footnotes.keys.filter (· ∉ reached) := by
    simp [List.removeAll]
  rw [Numbering.order_foldl_assign _ hσ, order_of_first first,
    eraseDups_append_of_nodup (nodup_first first)]
  change reached ++ (d.footnotes.keys.removeAll reached).eraseDups = _
  rw [hleft, eraseDups_of_nodup (Dict.nodup_keys.sublist List.filter_sublist)]

theorem nodup_between (first : Drains (d.endnotes ov) 0 (d.content ov).2 reached items σ) :
    (((d.endnotes ov).footnotes.map Prod.fst).foldl Numbering.assign σ).order.Nodup := by
  rw [Numbering.order_foldl_assign _ (order_of_first first ▸ nodup_first first)]
  exact nodup_eraseDups _

/-- The order that both runs leave lists the labels whose notes they render. -/
theorem order_of_runs (h : (d.endnotes ov).Runs (d.content ov).2 reached others items τ) :
    τ.order = reached ++ others := by
  obtain ⟨first, second⟩ := h
  rw [second.order_eq_take_append (d.cites_endnotes ov) (nodup_between first),
    order_between first, List.take_left' rfl]

theorem order_eq_of_runs (h : (d.endnotes ov).Runs (d.content ov).2 reached others items τ) :
    τ.order = (reached ++ d.footnotes.keys.filter (· ∉ reached) ++
      others.flatMap d.cites).eraseDups := by
  obtain ⟨first, second⟩ := h
  rw [second.order_eq (d.cites_endnotes ov) (nodup_between first), order_between first]

theorem nodup_of_runs (h : (d.endnotes ov).Runs (d.content ov).2 reached others items τ) :
    τ.order.Nodup := by
  rw [order_eq_of_runs h]
  exact nodup_eraseDups _

theorem recorded_of_runs (h : (d.endnotes ov).Runs (d.content ov).2 reached others items τ) :
    τ.recorded = Node.citedAll d.children ++ τ.order.flatMap d.cites := by
  rw [order_of_runs h]
  obtain ⟨first, second⟩ := h
  rw [second.recorded_eq (d.cites_endnotes ov), Numbering.recorded_foldl_assign,
    first.recorded_eq (d.cites_endnotes ov), recorded_content, List.append_assoc,
    List.flatMap_append]

/-- What holds of the note of each label in an order holds of all notes of a document. -/
theorem exists_label_of_runs {P : String → Nat → Html → Prop}
    (h : (d.endnotes ov).Runs (d.content ov).2 reached others items τ)
    (hP : ∀ (σ : Numbering) label i, σ.order.Nodup → σ.order[i]? = some label →
      P label (i + 1) ((d.endnotes ov).note label (i + 1) σ).1)
    {i : Nat} {item : Html} (hi : items[i]? = some item) :
    ∃ label, (reached ++ others)[i]? = some label ∧ P label (i + 1) item := by
  obtain ⟨first, second⟩ := h
  rename_i items items' σ'
  rw [List.getElem?_append] at hi
  rw [List.getElem?_append, ← first.length_items]
  split at hi
  · rename_i hlt
    rw [if_pos hlt]
    obtain ⟨label, hlabel, hitem⟩ :=
      first.exists_label (d.cites_endnotes ov) nodup_order_content hP hi
    rw [Nat.zero_add] at hitem
    exact ⟨label, hlabel, hitem⟩
  · rename_i hlt
    rw [if_neg hlt]
    obtain ⟨label, hlabel, hitem⟩ :=
      second.exists_label (d.cites_endnotes ov) (nodup_between first) hP hi
    have hplace : reached.length + (i - items.length) = i := by
      rw [← first.length_items]
      omega
    rw [hplace] at hitem
    exact ⟨label, hlabel, hitem⟩

/-- What both runs number: what the content mentions, what is defined, and what is cited. -/
theorem mem_order_iff (h : (d.endnotes ov).Runs (d.content ov).2 reached others items τ)
    (label : String) :
    label ∈ τ.order ↔
      label ∈ d.mentions ∨ label ∈ d.footnotes.keys ∨ ∃ l, label ∈ d.cites l := by
  have horder := order_of_runs h
  have heq := order_eq_of_runs h
  obtain ⟨first, -⟩ := h
  -- what the first run numbers is known from its own equation
  have hreached (l : String) :
      l ∈ reached ↔ l ∈ d.mentions ∨ ∃ m ∈ reached, l ∈ d.cites m := by
    rw [first_eq first, List.mem_eraseDups, List.mem_append, List.mem_eraseDups,
      List.mem_flatMap, ← first_eq first]
  have hmem (l : String) : l ∈ τ.order ↔ l ∈ reached ∨ l ∈ d.footnotes.keys ∨
      ∃ m ∈ others, l ∈ d.cites m := by
    rw [heq, List.mem_eraseDups, List.mem_append, List.mem_append, List.mem_filter,
      List.mem_flatMap, decide_eq_true_iff, or_assoc]
    by_cases hl : l ∈ reached <;> simp [hl]
  constructor
  · intro hl
    rcases (hmem label).1 hl with hl | hl | ⟨m, -, hl⟩
    · exact ((hreached label).1 hl).imp_right fun ⟨m, _, hl⟩ => Or.inr ⟨m, hl⟩
    · exact Or.inr (Or.inl hl)
    · exact Or.inr (Or.inr ⟨m, hl⟩)
  · rintro (hl | hl | ⟨m, hl⟩)
    · exact (hmem label).2 (Or.inl ((hreached label).2 (Or.inl hl)))
    · exact (hmem label).2 (Or.inr (Or.inl hl))
    · by_cases hm : m ∈ d.footnotes.keys
      · -- the body that cites the label is rendered in one of the runs
        have hrun : m ∈ reached ++ others := horder ▸ (hmem m).2 (Or.inr (Or.inl hm))
        rcases List.mem_append.1 hrun with hm | hm
        · exact (hmem label).2 (Or.inl ((hreached label).2 (Or.inr ⟨m, hm, hl⟩)))
        · exact (hmem label).2 (Or.inr (Or.inr ⟨m, hm, hl⟩))
      · exact absurd hl (by rw [cites_of_notMem hm]; exact List.not_mem_nil)

/-- What the second run numbers comes after the defined labels that are left. -/
theorem exists_late (h : (d.endnotes ov).Runs (d.content ov).2 reached others items τ) :
    ∃ late, others = d.footnotes.keys.filter (· ∉ reached) ++ late ∧
      ∀ label ∈ late, label ∉ d.footnotes.keys := by
  have horder := order_of_runs h
  have heq := order_eq_of_runs h
  obtain ⟨first, -⟩ := h
  have hmid : (reached ++ d.footnotes.keys.filter (· ∉ reached)).Nodup := by
    rw [← order_between first]
    exact nodup_between first
  rw [horder, eraseDups_append_of_nodup hmid, List.append_assoc] at heq
  refine ⟨_, List.append_cancel_left heq, fun label hl hk => ?_⟩
  have hnew := (List.mem_filter.1 (List.mem_eraseDups.1 hl)).2
  have hold : label ∈ reached ++ d.footnotes.keys.filter (· ∉ reached) := by
    by_cases hr : label ∈ reached
    · exact List.mem_append_left _ hr
    · exact List.mem_append_right _ (List.mem_filter.2 ⟨hk, decide_eq_true hr⟩)
  simp only [List.elem_eq_mem, Bool.not_eq_true', decide_eq_false_iff_not] at hnew
  exact hnew hold

/-- The parts of the order that both runs leave. -/
theorem exists_ordered (h : (d.endnotes ov).Runs (d.content ov).2 reached others items τ) :
    ∃ mentioned came remaining late, reached = mentioned ++ came ∧ others = remaining ++ late ∧
      d.Ordered mentioned came remaining late := by
  obtain ⟨late, hothers, hlate⟩ := exists_late h
  have horder := order_of_runs h
  have heq := order_eq_of_runs h
  obtain ⟨first, -⟩ := h
  have hcame := first_eq first
  rw [eraseDups_append_of_nodup (nodup_eraseDups _)] at hcame
  refine ⟨_, _, _, late, hcame, hothers, ?_⟩
  have hnone : late.flatMap d.cites = [] :=
    List.flatMap_eq_nil_iff.2 fun l hl => cites_of_notMem (hlate l hl)
  exact {
    mentioned_eq := rfl
    mem_reached_iff := fun label => by
      rw [← hcame, ← d.order_content ov, ← order_of_first first]
      exact first.mem_order_iff_reaches (d.cites_endnotes ov) nodup_order_content
    reached_eq := by
      rw [← hcame]
      exact first_eq first
    cited_before := fun before label after hsplit => by
      rw [← d.order_content ov]
      exact first.mem_of_labels_eq (d.cites_endnotes ov) nodup_order_content (hcame.trans hsplit)
    remaining_eq := by rw [← hcame]
    ascending := d.footnotes.ascending.filter _
    late_eq := by
      rw [← hcame]
      rw [horder, hothers, List.flatMap_append, hnone, List.append_nil] at heq
      rw [← heq, List.append_assoc] }

theorem complete_of_runs (h : (d.endnotes ov).Runs (d.content ov).2 reached others items τ) :
    d.Complete (reached ++ others) τ := by
  have horder := order_of_runs h
  have hnodup := nodup_of_runs h
  have hmem := mem_order_iff h
  have hrecorded := recorded_of_runs h
  rw [horder] at hnodup hmem hrecorded
  refine ⟨horder, hnodup, fun label => ?_, fun label hl => ?_, hrecorded⟩
  · rw [hmem, mem_cites_iff]
  · rw [hnodup.count, if_pos ((hmem label).2 (Or.inr (Or.inl hl)))]

end Runs

/-- **The endnotes of a document are complete and ordered.** For every document and all overrides
the loop over the notes ends, in both of its runs; then every label has one note, and the order
has its four parts. -/
theorem endnotes_ordered (d : DocTree) (ov : Overrides) :
    ∃ mentioned reached remaining late items τ,
      (d.endnotes ov).Runs (d.content ov).2 (mentioned ++ reached) (remaining ++ late) items τ ∧
      (d.endnotes ov).notes (d.content ov).2 = (items, τ) ∧
      ((d.endnotes ov).render (d.content ov).2).2 = τ ∧
      d.Complete (mentioned ++ reached ++ (remaining ++ late)) τ ∧
      d.Ordered mentioned reached remaining late := by
  obtain ⟨numbered, others, hruns⟩ := d.exists_endnote_runs ov
  have hcomplete := complete_of_runs hruns
  obtain ⟨mentioned, reached, remaining, late, rfl, rfl, hordered⟩ := exists_ordered hruns
  exact ⟨mentioned, reached, remaining, late, _, _, hruns, rfl, Endnotes.render_snd, hcomplete,
    hordered⟩

end DocTree

end DocMarkup
