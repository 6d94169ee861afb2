import DocMarkup.Proofs.Render.TableOrder
import DocMarkup.Proofs.Render.Walk
import Mathlib.Data.List.Basic

/-!
# The groups of a table

The children of a table come in any order: captions between rows, header rows after others,
children that render to nothing. What the table element holds is an ordered partition of what they
render to. Header rows are its head as long as no other row has rendered to something; all later
rows are its body. Of the captions only the first is there, and it keeps its place in front even if
it renders to nothing itself. Nothing else is left out, and nothing is there twice.

## Main definitions

* `Node.isHeaderRow` : whether a node is a header row.
* `TableParts.rendered` : the children that render to something.

## Main results

* `TableParts.parts_ofList` : the parts of a table are what it shows, in its order.
* `TableParts.head_foldl_push` : the head after a run of children.
* `TableParts.toList_ofList` : the children of a table element are an ordered partition.
-/

namespace DocMarkup

open Render (present)

/-- Whether the node is a header row. -/
def Node.isHeaderRow : Node → Bool
  | row head .. => head
  | _ => false

theorem Node.isHeaderRow_of_isRow_eq_false {n : Node} (h : n.isRow = false) :
    n.isHeaderRow = false := by
  cases n with
  | row => cases h
  | _ => rfl

/-! ### Everything that is shown -/

/-- What a table shows, put in order: each of its children once, but for the captions after the
first. -/
theorem shownChildren_perm {α : Type} (seen : Bool) (children : List (Node × α)) :
    (shownChildren seen children).Perm
      ((if seen then [] else (children.find? (·.1.isCaption)).toList.map Prod.snd) ++
        (children.filter (·.1.isRow)).map Prod.snd ++
          (children.filter fun c => !c.1.isCaption && !c.1.isRow).map Prod.snd) := by
  induction children generalizing seen with
  | nil => cases seen <;> exact .refl _
  | cons c rest ih =>
    obtain ⟨n, a⟩ := c
    rw [shownChildren, List.find?_cons, List.filter_cons, List.filter_cons]
    cases hcaption : n.isCaption with
    | true =>
      rw [Node.isRow_of_isCaption hcaption]
      cases seen with
      | true => simpa using ih true
      | false => simpa using (ih true).cons a
    | false =>
      cases hrow : n.isRow with
      | true =>
        have h := (ih seen).cons a
        simp only [Bool.and_false, Bool.or_false, Bool.false_eq_true, if_false] at h ⊢
        simp only [List.append_assoc] at h ⊢
        exact h.trans List.perm_middle.symm
      | false =>
        have h := (ih seen).cons a
        simp only [Bool.and_false, Bool.or_false, Bool.false_eq_true, if_false] at h ⊢
        exact h.trans List.perm_middle.symm

theorem shownChildren_sublist {α : Type} (seen : Bool) (children : List (Node × α)) :
    (shownChildren seen children).Sublist (children.map Prod.snd) := by
  induction children generalizing seen with
  | nil => exact .slnil
  | cons c rest ih =>
    obtain ⟨n, a⟩ := c
    rw [shownChildren]
    split
    · exact (ih seen).cons a
    · exact (ih _).cons_cons a

/-- Whatever its order, a table shows all children but the captions after the first, and each of
them once. -/
theorem tableOrder_perm {α : Type} (children : List (Node × α)) :
    (tableOrder children).Perm (shownChildren false children) :=
  (shownChildren_perm false children).symm

namespace TableParts

/-- Those of the children that render to something, each with what it renders to. -/
def rendered (children : List (Node × Option Html)) : List (Node × Html) :=
  children.filterMap fun c => c.2.map (c.1, ·)

/-- What the children of some kind render to. -/
theorem flatMap_filter_eq (q : Node → Bool) (children : List (Node × Option Html)) :
    ((children.filter fun c => q c.1).flatMap fun c => c.2.toList) =
      ((rendered children).filter fun c => q c.1).map Prod.snd := by
  induction children with
  | nil => rfl
  | cons c children ih =>
    obtain ⟨n, h⟩ := c
    cases hq : q n <;> cases h <;> simp_all [rendered]

/-- The parts of a table are what it shows, in its order. -/
theorem parts_ofList (children : List (Node × Option Html)) :
    (ofList children).caption.join.toList ++
        ((ofList children).head ++ (ofList children).body) ++ (ofList children).other =
      present (tableOrder children) := by
  have hflat (l : List (Node × Option Html)) :
      (l.flatMap fun c => c.2.toList) = present (l.map Prod.snd) := by
    rw [present, List.filterMap_map, List.filterMap_eq_flatMap_toList]
    rfl
  have hcaption (o : Option (Node × Option Html)) :
      (o.map Prod.snd).join.toList = present (o.toList.map Prod.snd) := by
    cases o with
    | none => rfl
    | some c => rw [Option.toList_some, List.map_singleton, Render.present_cons]; simp [present]
  rw [caption_ofList, rows_ofList, other_ofList, hcaption, hflat, hflat, tableOrder, present,
    present, present, present, List.filterMap_append, List.filterMap_append]

/-! ### Head and body -/

variable (t : TableParts)

/-- A header row goes to the head if nothing is in the body yet. -/
theorem head_push (n : Node) (h : Option Html) :
    (t.push n h).head = t.head ++ if n.isHeaderRow && t.body.isEmpty then h.toList else [] := by
  cases n with
  | container k => cases k <;> exact (List.append_nil _).symm
  | row head =>
    cases h with
    | none => simp [push]
    | some h =>
      rw [push]
      split <;> simp_all [Node.isHeaderRow]
  | _ => exact (List.append_nil _).symm

/-- Any other row goes to the body. -/
theorem body_push (n : Node) (h : Option Html) :
    (t.push n h).body =
      t.body ++ if n.isRow && !(n.isHeaderRow && t.body.isEmpty) then h.toList else [] := by
  cases n with
  | container k => cases k <;> exact (List.append_nil _).symm
  | row head =>
    cases h with
    | none => simp [push]
    | some h =>
      rw [push]
      split <;> simp_all [Node.isHeaderRow, Node.isRow]
  | _ => exact (List.append_nil _).symm

/-- What a run of children puts into the head: the header rows in front of all other rows, and
nothing if there is a body already. -/
theorem head_foldl_push (children : List (Node × Option Html)) :
    (children.foldl (fun t c => t.push c.1 c.2) t).head =
      t.head ++ if t.body.isEmpty then
        (((rendered children).filter (·.1.isRow)).takeWhile (·.1.isHeaderRow)).map Prod.snd
      else [] := by
  induction children generalizing t with
  | nil => simp [rendered]
  | cons c children ih =>
    obtain ⟨n, h⟩ := c
    rw [List.foldl_cons, ih, head_push, body_push, List.append_assoc]
    congr 1
    cases h with
    | none => simp [rendered]
    | some h =>
      have hcons : rendered ((n, some h) :: children) = (n, h) :: rendered children := rfl
      rw [hcons, List.filter_cons]
      cases hrow : n.isRow with
      | false => simp [Node.isHeaderRow_of_isRow_eq_false hrow]
      | true => cases hhead : n.isHeaderRow <;> cases hbody : t.body.isEmpty <;> simp_all

theorem head_ofList (children : List (Node × Option Html)) :
    (ofList children).head =
      (((rendered children).filter (·.1.isRow)).takeWhile (·.1.isHeaderRow)).map Prod.snd :=
  head_foldl_push {} children

/-- The body is made of the rows that are not in the head. -/
theorem body_ofList (children : List (Node × Option Html)) :
    (ofList children).body =
      (((rendered children).filter (·.1.isRow)).dropWhile (·.1.isHeaderRow)).map Prod.snd := by
  have hrows := rows_ofList children
  rw [flatMap_filter_eq, head_ofList] at hrows
  refine List.append_cancel_left (hrows.trans ?_)
  rw [← List.map_append, List.takeWhile_append_dropWhile]

/-- The rows of a group are what is inside it. -/
theorem flatMap_children_rowGroup (tag : String) (rows : List Html) :
    (rowGroup tag rows).flatMap Html.children = rows := by
  cases rows with
  | nil => rfl
  | cons => exact List.append_nil _

/-- The rows of a group stand under one element, which is not there without rows. -/
theorem rowGroup_map {α : Type} (tag : String) (f : α → Html) (rows : List α) :
    rowGroup tag (rows.map f) =
      if rows.isEmpty then [] else [.element tag (some tag) ∅ (rows.map f)] := by
  rw [rowGroup, List.isEmpty_map]

/-- **The children of a table element are an ordered partition** of what the children of the table
render to: the first caption, a head of the header rows in front of all other rows, a body of all
other rows, and then everything else. Head and body are elements of their own that are there if they
have rows, the rows in them one after the other are all rows in order, and nothing but captions
after the first is left out or there twice. -/
theorem toList_ofList (children : List (Node × Option Html)) :
    let caption := (children.find? (·.1.isCaption)).bind Prod.snd
    let rows := (rendered children).filter (·.1.isRow)
    let head := rows.takeWhile (·.1.isHeaderRow)
    let body := rows.dropWhile (·.1.isHeaderRow)
    let others := (rendered children).filter fun c => !c.1.isCaption && !c.1.isRow
    let groups : List Html :=
      (if head.isEmpty then [] else [.element "thead" (some "thead") ∅ (head.map Prod.snd)]) ++
        if body.isEmpty then [] else [.element "tbody" (some "tbody") ∅ (body.map Prod.snd)]
    (ofList children).toList = caption.toList ++ groups ++ others.map Prod.snd ∧
      groups.flatMap Html.children = rows.map Prod.snd ∧
        (caption.toList ++ groups.flatMap Html.children ++ others.map Prod.snd).Perm
          (shownChildren false children).reduceOption := by
  intro caption rows head body others groups
  have hcaption : (ofList children).caption.join = caption := by
    rw [caption_ofList]
    cases h : children.find? (·.1.isCaption) <;> simp [caption, h]
  have hother : (ofList children).other = others.map Prod.snd := by
    rw [other_ofList]
    exact flatMap_filter_eq (fun n => !n.isCaption && !n.isRow) children
  have hgroups : groups.flatMap Html.children = rows.map Prod.snd := by
    have hsplit : head.map Prod.snd ++ body.map Prod.snd = rows.map Prod.snd := by
      rw [← List.map_append, List.takeWhile_append_dropWhile]
    rw [← hsplit, List.flatMap_append, ← rowGroup_map, ← rowGroup_map, flatMap_children_rowGroup,
      flatMap_children_rowGroup]
  refine ⟨?_, hgroups, ?_⟩
  · rw [toList, hcaption, head_ofList, body_ofList, hother, rowGroup_map, rowGroup_map,
      List.append_assoc caption.toList]
  · have hparts := (tableOrder_perm children).filterMap id
    rw [← present, ← parts_ofList, hcaption, head_ofList, body_ofList, hother,
      ← List.map_append, List.takeWhile_append_dropWhile] at hparts
    rw [hgroups]
    exact hparts

/-- Children in no order: a caption without content in front of one with content, header rows
around other rows, one of which renders to nothing, and text between them. -/
def scattered : List (Node × Option Html) :=
  let header : Node := .row true [] ∅
  let other : Node := .row false [] ∅
  let caption : Node := .container .caption [] ∅ ∅
  [(.literal .str "aside" ∅, some (.text "aside")), (caption, none), (header, some (.text "a")),
    (caption, some (.text "late")), (other, none), (header, some (.text "b")),
    (other, some (.text "c")), (.unknown, none), (header, some (.text "d"))]

theorem toList_ofList_scattered :
    (ofList scattered).toList =
        [.element "thead" (some "thead") ∅ [.text "a", .text "b"],
          .element "tbody" (some "tbody") ∅ [.text "c", .text "d"], .text "aside"] ∧
      [Html.text "a", .text "b", .text "c", .text "d", .text "aside"].Perm
        (shownChildren false scattered).reduceOption :=
  have h := toList_ofList scattered
  ⟨h.1, h.2.2⟩

end TableParts

end DocMarkup
