import DocMarkup.Proofs.Footnote.Shown
import Mathlib.Data.List.Basic

/-!
# References that are recorded, shown or not

All references that a tree records, in the order of recording, each with whether the output shows
it. A table records what stands in all of its captions and shows the first of them, so references
in the others are hidden. Which reference to a label comes first decides which of them has the
identifier of a first reference, and it may be one that is hidden.

## Main definitions

* `Node.references`, `Node.referencesAll` : the recorded references.
* `IsFirstShown` : whether the first reference to a label is among some references and shown.

## Main results

* `Node.map_fst_references` : these are the references that are recorded.
* `Node.mem_shown_iff` : those that are shown stand in the output.
-/

namespace DocMarkup

/-- The references in the children of a table. All of those in captions after the first are hidden.
`seen` tells whether a caption has come before. -/
def tableReferences (seen : Bool) : List (Node × List (String × Bool)) → List (String × Bool)
  | [] => []
  | (n, refs) :: rest =>
    (if seen && n.isCaption then refs.map fun r => (r.1, false) else refs) ++
      tableReferences (seen || n.isCaption) rest

namespace Node

mutual

/-- The references that are recorded when a tree is rendered, in order, by their labels and each
with whether the output shows it. -/
def references : Node → List (String × Bool)
  | footnoteReference label _ => [(label, true)]
  | doc .. | link .image .. => []
  | container .table kids _ _ => tableReferences false (kids.zip (referencesEach kids))
  | container _ kids .. => (referencesEach kids).flatten
  | heading _ kids .. => (referencesEach kids).flatten
  | row _ kids _ => (referencesEach kids).flatten
  | cell _ _ kids _ => (referencesEach kids).flatten
  | footnote ⟨_, kids, _⟩ => (referencesEach kids).flatten
  | link .link _ _ kids _ => (referencesEach kids).flatten
  | list _ _ _ kids _ => (referencesEach kids).flatten
  | orderedList _ _ _ kids _ => (referencesEach kids).flatten
  | taskListItem _ kids _ => (referencesEach kids).flatten
  | smartPunctuation .. | literal .. | codeBlock .. | raw .. | symb .. | leaf .. | unknown => []

/-- The references that are recorded when trees are rendered, tree by tree. -/
def referencesEach : List Node → List (List (String × Bool))
  | [] => []
  | n :: rest => n.references :: referencesEach rest

end

/-- The references that are recorded when trees are rendered one after the other. -/
def referencesAll (ns : List Node) : List (String × Bool) := ns.flatMap references

theorem referencesEach_eq_map (ns : List Node) : referencesEach ns = ns.map references := by
  induction ns with
  | nil => rfl
  | cons n ns ih => rw [referencesEach, ih, List.map_cons]

theorem flatten_referencesEach (ns : List Node) :
    (referencesEach ns).flatten = referencesAll ns := by
  rw [referencesEach_eq_map, referencesAll, List.flatMap_def]

theorem references_table (kids : List Node) (attrs auto : Attributes) :
    (container .table kids attrs auto).references =
      tableReferences false (kids.zip (kids.map references)) := by
  rw [references, referencesEach_eq_map]

theorem referencesAll_itemContent (kids : List Node) (unwrap : Bool) :
    referencesAll (itemContent kids unwrap) = referencesAll kids := by
  unfold itemContent
  split
  · simp [referencesAll, references, flatten_referencesEach]
  · rfl

theorem references_eq {n : Node} (hn : n.isDoc = false) (ht : n.isTable = false) (ov : Overrides)
    (tight : Option Bool) :
    n.references = n.ownLabels.map (·, true) ++ referencesAll (n.content ov tight) := by
  cases n with
  | doc => cases hn
  | container k kids attrs auto =>
    cases k
    case table => cases ht
    case listItem =>
      exact (flatten_referencesEach kids).trans (referencesAll_itemContent kids _).symm
    all_goals exact flatten_referencesEach kids
  | taskListItem checkbox kids attrs =>
    exact (flatten_referencesEach kids).trans (referencesAll_itemContent kids _).symm
  | link k => cases k <;> first | rfl | exact flatten_referencesEach _
  | footnote note => cases note; exact flatten_referencesEach _
  | footnoteReference => rfl
  | heading | row | cell | list | orderedList => exact flatten_referencesEach _
  | _ => rfl

theorem map_fst_tableReferences (seen : Bool) (children : List (Node × List (String × Bool))) :
    (tableReferences seen children).map Prod.fst = children.flatMap fun c => c.2.map Prod.fst := by
  induction children generalizing seen with
  | nil => rfl
  | cons c rest ih =>
    obtain ⟨n, refs⟩ := c
    rw [tableReferences, List.map_append, ih, List.flatMap_cons]
    split
    · rw [List.map_map]
      rfl
    · rfl

/-- The references by their labels are those that a rendering records. -/
theorem map_fst_references (n : Node) : n.references.map Prod.fst = n.cited := by
  induction n using induction_content with
  | step n ih =>
    cases hdoc : n.isDoc with
    | true =>
      cases n <;> cases hdoc
      rfl
    | false =>
      have hcontent : (n.content ∅ none).flatMap (fun m => m.references.map Prod.fst) =
          citedAll (n.content ∅ none) := by
        rw [citedAll_eq_flatMap]
        exact List.flatMap_congr (ih ∅ none)
      cases htable : n.isTable with
      | false =>
        rw [references_eq hdoc htable ∅ none, cited_eq hdoc ∅ none, ← hcontent, List.map_append,
          referencesAll, List.map_flatMap, List.map_map]
        exact congrArg (· ++ _) (List.map_id _)
      | true =>
        obtain ⟨kids, attrs, auto, rfl⟩ := eq_of_isTable htable
        rw [references_table, map_fst_tableReferences, ← List.map_prod_left_eq_zip,
          List.flatMap_map]
        exact hcontent

theorem map_fst_referencesAll (ns : List Node) : (referencesAll ns).map Prod.fst = citedAll ns := by
  rw [referencesAll, List.map_flatMap, citedAll_eq_flatMap]
  exact List.flatMap_congr fun n _ => map_fst_references n

/-! ### Shown references -/

theorem mem_shownAll_iff_of {label : String} {ns : List Node}
    (h : ∀ n ∈ ns, label ∈ n.shown ↔ (label, true) ∈ n.references) :
    label ∈ shownAll ns ↔ (label, true) ∈ referencesAll ns := by
  rw [shownAll, referencesAll, List.mem_flatMap, List.mem_flatMap]
  exact exists_congr fun n => and_congr_right (h n)

theorem mem_flatten_shownChildren_iff {label : String} {kids : List Node}
    (h : ∀ n ∈ kids, label ∈ n.shown ↔ (label, true) ∈ n.references) (seen : Bool) :
    label ∈ (shownChildren seen (kids.zip (kids.map shown))).flatten ↔
      (label, true) ∈ tableReferences seen (kids.zip (kids.map references)) := by
  induction kids generalizing seen with
  | nil => simp [shownChildren, tableReferences]
  | cons n kids ih =>
    have hrest := ih (fun m hm => h m (List.mem_cons_of_mem n hm))
    rw [List.map_cons, List.map_cons, List.zip_cons_cons, List.zip_cons_cons, shownChildren,
      tableReferences, List.mem_append, ← hrest]
    by_cases hhidden : (seen && n.isCaption) = true
    · obtain rfl : seen = true := (Bool.and_eq_true_iff.1 hhidden).1
      rw [if_pos hhidden, if_pos hhidden]
      simp
    · rw [if_neg hhidden, if_neg hhidden, List.flatten_cons, List.mem_append,
        h n List.mem_cons_self]

/-- A label is shown exactly if a reference to it is recorded that is shown. -/
theorem mem_shown_iff {label : String} (n : Node) :
    label ∈ n.shown ↔ (label, true) ∈ n.references := by
  induction n using induction_content with
  | step n ih =>
    cases hdoc : n.isDoc with
    | true =>
      cases n <;> cases hdoc
      exact ⟨nofun, nofun⟩
    | false =>
      cases htable : n.isTable with
      | false =>
        rw [shown_eq hdoc htable ∅ none, references_eq hdoc htable ∅ none, List.mem_append,
          List.mem_append, mem_shownAll_iff_of (ih ∅ none)]
        simp
      | true =>
        obtain ⟨kids, attrs, auto, rfl⟩ := eq_of_isTable htable
        have hkids : ∀ m ∈ kids, label ∈ m.shown ↔ (label, true) ∈ m.references := ih ∅ none
        rw [shown_table, references_table, ← mem_flatten_shownChildren_iff hkids,
          List.mem_flatten, List.mem_flatten]
        exact exists_congr fun ls => and_congr_left fun _ => mem_tableOrder_iff

theorem mem_shownAll_iff {label : String} (ns : List Node) :
    label ∈ shownAll ns ↔ (label, true) ∈ referencesAll ns :=
  mem_shownAll_iff_of fun n _ => mem_shown_iff n

end Node

/-! ### The first reference to a label -/

/-- The first reference to the label is among the references and shown, where those to the labels
`recorded` came before. -/
def IsFirstShown (label : String) (recorded : List String) (refs : List (String × Bool)) : Prop :=
  label ∉ recorded ∧ refs.lookup label = some true

section IsFirstShown

variable {label : String} {recorded : List String} {refs refs' : List (String × Bool)}

theorem not_isFirstShown_nil : ¬ IsFirstShown label recorded [] := fun h => by cases h.2

theorem isFirstShown_singleton {l : String} :
    IsFirstShown label recorded [(l, true)] ↔ l = label ∧ l ∉ recorded := by
  by_cases h : l = label
  · subst h
    simp [IsFirstShown]
  · rw [IsFirstShown, OrderedMap.lookup_cons_of_ne (Ne.symm h)]
    simp [h]

theorem isFirstShown_append :
    IsFirstShown label recorded (refs ++ refs') ↔ IsFirstShown label recorded refs ∨
      IsFirstShown label (recorded ++ refs.map Prod.fst) refs' := by
  rw [IsFirstShown, IsFirstShown, IsFirstShown, List.lookup_append, List.mem_append, not_or]
  cases h : refs.lookup label with
  | none => simp [OrderedMap.lookup_eq_none_iff_notMem.1 h]
  | some shown =>
    have hmem : label ∈ refs.map Prod.fst :=
      List.mem_map_of_mem (OrderedMap.mem_of_lookup_eq_some h)
    simp [hmem]

/-- Hidden references are not shown, and come before all that follow. -/
theorem isFirstShown_hidden_append :
    IsFirstShown label recorded (refs.map (fun r => (r.1, false)) ++ refs') ↔
      IsFirstShown label (recorded ++ refs.map Prod.fst) refs' := by
  have hhidden : ¬ IsFirstShown label recorded (refs.map fun r => (r.1, false)) := fun h => by
    have hmem := OrderedMap.mem_of_lookup_eq_some h.2
    simp at hmem
  rw [isFirstShown_append, or_iff_right hhidden, List.map_map]
  rfl

end IsFirstShown

end DocMarkup
