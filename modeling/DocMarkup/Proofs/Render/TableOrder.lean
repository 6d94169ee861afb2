import DocMarkup.Proofs.Markup.Collect
import DocMarkup.Render.Table

/-!
# The order of what a table shows

A table shows the first of its captions, then its rows in order, then everything else, whatever
order its children have. Where its rows are divided into head and body makes no difference to
this.

## Main definitions

* `Node.isTable` : whether a node is a table.
* `Node.isCaption`, `Node.isRow` : the children that a table tells apart.
* `tableOrder` : what belongs to the children of a table, in the order in which they are shown.
* `shownChildren` : what belongs to those of the children that are shown, in their own order.

## Main results

* `mem_tableOrder_iff` : what is shown, whatever the order.
* `TableParts.collect_toList` : what is found in a table.
* `TableParts.allElements_toList` : what holds of all elements of a table.
-/

namespace DocMarkup

namespace Node

/-- Whether the node is a caption. -/
def isCaption : Node → Bool
  | container .caption .. => true
  | _ => false

/-- Whether the node is a table. -/
def isTable : Node → Bool
  | container .table .. => true
  | _ => false

theorem eq_of_isTable {n : Node} (h : n.isTable = true) :
    ∃ kids attrs auto, n = container .table kids attrs auto := by
  unfold isTable at h
  split at h
  · exact ⟨_, _, _, rfl⟩
  · cases h

/-- Whether the node is a table row. -/
def isRow : Node → Bool
  | row .. => true
  | _ => false

end Node

/-- What belongs to the children of a table, in the order in which the table shows them. -/
def tableOrder {α : Type} (children : List (Node × α)) : List α :=
  (children.find? (·.1.isCaption)).toList.map Prod.snd ++
    (children.filter (·.1.isRow)).map Prod.snd ++
      (children.filter fun c => !c.1.isCaption && !c.1.isRow).map Prod.snd

theorem tableOrder_map {α β : Type} (f : α → β) (children : List (Node × α)) :
    tableOrder (children.map fun c => (c.1, f c.2)) = (tableOrder children).map f := by
  have hcaption : (children.map fun c => (c.1, f c.2)).find? (·.1.isCaption) =
      (children.find? (·.1.isCaption)).map fun c => (c.1, f c.2) := by
    rw [List.find?_map]
    rfl
  rw [tableOrder, hcaption, List.filter_map, List.filter_map]
  cases h : children.find? (·.1.isCaption) <;>
    simp [tableOrder, h, Function.comp_def]

/-- What belongs to the children may be changed before or after they are put in order. -/
theorem tableOrder_zip_map {α β : Type} (f : α → β) (kids : List Node) (l : List α) :
    tableOrder (kids.zip (l.map f)) = (tableOrder (kids.zip l)).map f := by
  rw [← tableOrder_map, List.zip_map_right]
  rfl

theorem tableOrder_subset {α : Type} (children : List (Node × α)) :
    tableOrder children ⊆ children.map Prod.snd := by
  intro a ha
  simp only [tableOrder, List.mem_append, List.mem_map, Option.mem_toList] at ha
  rcases ha with (⟨c, hc, rfl⟩ | ⟨c, hc, rfl⟩) | ⟨c, hc, rfl⟩
  · exact List.mem_map_of_mem (List.mem_of_find?_eq_some hc)
  · exact List.mem_map_of_mem (List.mem_filter.1 hc).1
  · exact List.mem_map_of_mem (List.mem_filter.1 hc).1

/-- What belongs to the children of a table that it shows: to all but the captions after the first.
`seen` tells whether a caption has come before. -/
def shownChildren {α : Type} (seen : Bool) : List (Node × α) → List α
  | [] => []
  | (n, a) :: rest =>
    if seen && n.isCaption then shownChildren seen rest
    else a :: shownChildren (seen || n.isCaption) rest

theorem Node.isRow_of_isCaption {n : Node} (h : n.isCaption = true) : n.isRow = false := by
  cases n with
  | container => rfl
  | _ => cases h

theorem mem_shownChildren_iff {α : Type} {a : α} (seen : Bool) (children : List (Node × α)) :
    a ∈ shownChildren seen children ↔
      (seen = false ∧ a ∈ (children.find? (·.1.isCaption)).toList.map Prod.snd) ∨
        a ∈ (children.filter (·.1.isRow)).map Prod.snd ∨
          a ∈ (children.filter fun c => !c.1.isCaption && !c.1.isRow).map Prod.snd := by
  induction children generalizing seen with
  | nil => simp [shownChildren]
  | cons c rest ih =>
    obtain ⟨n, b⟩ := c
    rw [shownChildren, List.find?_cons]
    cases hcaption : n.isCaption with
    | true =>
      have hrow := Node.isRow_of_isCaption hcaption
      cases seen with
      | true => simp [ih, hcaption, hrow]
      | false => simp [ih, hcaption, hrow]
    | false =>
      cases hrow : n.isRow with
      | true => simp [ih, hcaption, hrow, or_assoc, or_left_comm]
      | false => simp [ih, hcaption, hrow, or_left_comm]

/-- Whatever its order, a table shows all children but the captions after the first. -/
theorem mem_tableOrder_iff {α : Type} {a : α} {children : List (Node × α)} :
    a ∈ tableOrder children ↔ a ∈ shownChildren false children := by
  rw [mem_shownChildren_iff, tableOrder, List.mem_append, List.mem_append, or_assoc]
  simp

namespace TableParts

theorem caption_push (t : TableParts) (n : Node) (h : Option Html) :
    (t.push n h).caption = t.caption.or (if n.isCaption then some h else none) := by
  cases n with
  | container k => cases k <;> first | rfl | exact Option.or_none.symm
  | row head =>
    cases h with
    | none => exact Option.or_none.symm
    | some h =>
      rw [push]
      split <;> exact Option.or_none.symm
  | _ => exact Option.or_none.symm

/-- Whichever part a row goes to, it comes last among all rows. -/
theorem rows_push (t : TableParts) (n : Node) (h : Option Html) :
    (t.push n h).head ++ (t.push n h).body =
      t.head ++ t.body ++ if n.isRow then h.toList else [] := by
  cases n with
  | container k => cases k <;> exact (List.append_nil _).symm
  | row head =>
    cases h with
    | none => exact (List.append_nil _).symm
    | some h =>
      rw [push]
      split
      · rename_i hbody
        have hnil : t.body = [] := List.isEmpty_iff.1 (Bool.and_eq_true_iff.1 hbody).2
        simp [hnil, Node.isRow]
      · simp [Node.isRow]
  | _ => exact (List.append_nil _).symm

theorem other_push (t : TableParts) (n : Node) (h : Option Html) :
    (t.push n h).other =
      t.other ++ if !n.isCaption && !n.isRow then h.toList else [] := by
  cases n with
  | container k => cases k <;> first | rfl | exact (List.append_nil _).symm
  | row head =>
    cases h with
    | none => exact (List.append_nil _).symm
    | some h =>
      rw [push]
      split <;> exact (List.append_nil _).symm
  | _ => rfl

variable (t : TableParts) (children : List (Node × Option Html))

theorem caption_foldl_push :
    (children.foldl (fun t c => t.push c.1 c.2) t).caption =
      t.caption.or ((children.find? (·.1.isCaption)).map Prod.snd) := by
  induction children generalizing t with
  | nil => exact Option.or_none.symm
  | cons c children ih =>
    rw [List.foldl_cons, ih, caption_push, Option.or_assoc, List.find?_cons]
    cases c.1.isCaption <;> rfl

theorem rows_foldl_push :
    (children.foldl (fun t c => t.push c.1 c.2) t).head ++
        (children.foldl (fun t c => t.push c.1 c.2) t).body =
      t.head ++ t.body ++ (children.filter (·.1.isRow)).flatMap fun c => c.2.toList := by
  induction children generalizing t with
  | nil => exact (List.append_nil _).symm
  | cons c children ih =>
    rw [List.foldl_cons, ih, rows_push, List.filter_cons]
    cases c.1.isRow <;> simp

theorem other_foldl_push :
    (children.foldl (fun t c => t.push c.1 c.2) t).other =
      t.other ++
        (children.filter fun c => !c.1.isCaption && !c.1.isRow).flatMap fun c => c.2.toList := by
  induction children generalizing t with
  | nil => exact (List.append_nil _).symm
  | cons c children ih =>
    rw [List.foldl_cons, ih, other_push, List.filter_cons]
    cases (!c.1.isCaption && !c.1.isRow) <;> simp

theorem caption_ofList :
    (ofList children).caption = (children.find? (·.1.isCaption)).map Prod.snd :=
  caption_foldl_push {} children

theorem rows_ofList :
    (ofList children).head ++ (ofList children).body =
      (children.filter (·.1.isRow)).flatMap fun c => c.2.toList :=
  rows_foldl_push {} children

theorem other_ofList :
    (ofList children).other =
      (children.filter fun c => !c.1.isCaption && !c.1.isRow).flatMap fun c => c.2.toList :=
  other_foldl_push {} children

section Collect

variable {α : Type} {f : Html → Option α} {S : String → Bool} (hf : Html.Overlooks f S)

include hf

theorem collect_rowGroup {tag : String} (htag : tag ∈ Html.defaultTags) (rows : List Html) :
    Html.collect f (rowGroup tag rows) = Html.collect f rows := by
  unfold rowGroup
  split
  · rename_i h
    rw [List.isEmpty_iff.1 h]
  · exact hf.collect_element_of_lacks htag Props.lacks_empty _ rows

/-- What is found in a table: what is found in its children, in the order in which it shows
them. -/
theorem collect_toList :
    Html.collect f (ofList children).toList =
      (tableOrder children).flatMap fun h => Html.collect f h.toList := by
  have hjoin (o : Option (Node × Option Html)) :
      Html.collect f (o.map Prod.snd).join.toList =
        (o.toList.map Prod.snd).flatMap fun h => Html.collect f h.toList := by
    cases o <;> simp [Html.collect_nil]
  rw [toList, Html.collect_append, Html.collect_append, Html.collect_append,
    collect_rowGroup hf (by decide), collect_rowGroup hf (by decide), caption_ofList, other_ofList,
    hjoin, List.append_assoc _ (Html.collect f (ofList children).head), ← Html.collect_append,
    rows_ofList, Html.collect_flatMap, Html.collect_flatMap, tableOrder, List.flatMap_append,
    List.flatMap_append, List.flatMap_map, List.flatMap_map, List.flatMap_map]

end Collect

/-- What holds of all elements that the children of a table render to, and of the elements that its
rows are grouped under, holds of all elements of the table. -/
theorem allElements_toList {P : String → Option String → Props → List Html → Prop}
    (hgroup : ∀ tag rows, P tag (some tag) ∅ rows)
    (h : ∀ c ∈ children, Html.AllElements P c.2.toList) :
    Html.AllElements P (ofList children).toList := by
  have hrowGroup (tag : String) {rows : List Html} (hrows : Html.AllElements P rows) :
      Html.AllElements P (rowGroup tag rows) := by
    unfold rowGroup
    split
    · exact Html.allElements_nil
    · exact Html.allElements_element.2 ⟨hgroup tag rows, hrows⟩
  have hfilter (q : Node × Option Html → Bool) :
      Html.AllElements P ((children.filter q).flatMap fun c => c.2.toList) :=
    Html.allElements_flatMap.2 fun c hc => h c (List.mem_filter.1 hc).1
  have hcaption : Html.AllElements P (ofList children).caption.join.toList := by
    rw [caption_ofList]
    cases hfind : children.find? (·.1.isCaption) with
    | none => exact Html.allElements_nil
    | some c => exact h c (List.mem_of_find?_eq_some hfind)
  have hrows : Html.AllElements P (ofList children).head ∧
      Html.AllElements P (ofList children).body := by
    rw [← Html.allElements_append, rows_ofList]
    exact hfilter _
  rw [toList, Html.allElements_append, Html.allElements_append, Html.allElements_append,
    other_ofList]
  exact ⟨⟨⟨hcaption, hrowGroup "thead" hrows.1⟩, hrowGroup "tbody" hrows.2⟩, hfilter _⟩

end TableParts

end DocMarkup
