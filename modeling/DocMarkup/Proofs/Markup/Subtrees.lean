import DocMarkup.Markup.Html

/-!
# The trees in an output tree

An output tree as the list of all trees in it, each before those inside it. What holds of every
element of an output is said of the members of this list.

## Main definitions

* `Html.children` : the children of a tree.
* `Html.subtrees`, `Html.subtreesAll` : the trees in a tree, and in trees side by side.
* `Html.AllElements` : a property of all elements in trees side by side.
-/

namespace DocMarkup.Html

/-- The children of an element or a group. -/
def children : Html → List Html
  | text _ => []
  | element _ _ _ kids => kids
  | fragment _ kids => kids

mutual

/-- The trees in a tree: the tree itself, then those in its children in order. -/
def subtrees : Html → List Html
  | text s => [text s]
  | element tag key props kids => element tag key props kids :: subtreesAll kids
  | fragment key kids => fragment key kids :: subtreesAll kids

/-- The trees in trees side by side, in order. -/
def subtreesAll : List Html → List Html
  | [] => []
  | h :: rest => h.subtrees ++ subtreesAll rest

end

theorem subtreesAll_eq_flatMap (hs : List Html) : subtreesAll hs = hs.flatMap subtrees := by
  induction hs with
  | nil => rfl
  | cons h hs ih => rw [subtreesAll, ih, List.flatMap_cons]

theorem subtreesAll_append (hs hs' : List Html) :
    subtreesAll (hs ++ hs') = subtreesAll hs ++ subtreesAll hs' := by
  simp only [subtreesAll_eq_flatMap, List.flatMap_append]

theorem mem_subtrees_self (h : Html) : h ∈ h.subtrees := by
  cases h <;> exact List.mem_cons_self

/-- All elements in trees side by side have a property of their tag, key, properties and
children. -/
def AllElements (P : String → Option String → Props → List Html → Prop) (hs : List Html) : Prop :=
  ∀ tag key props kids, .element tag key props kids ∈ subtreesAll hs → P tag key props kids

section AllElements

variable {P Q : String → Option String → Props → List Html → Prop}

theorem allElements_nil : AllElements P [] := fun _ _ _ _ hm => absurd hm List.not_mem_nil

theorem allElements_append {hs hs' : List Html} :
    AllElements P (hs ++ hs') ↔ AllElements P hs ∧ AllElements P hs' := by
  simp only [AllElements, subtreesAll_append, List.mem_append, or_imp, forall_and]

theorem allElements_cons {h : Html} {hs : List Html} :
    AllElements P (h :: hs) ↔ AllElements P [h] ∧ AllElements P hs :=
  @allElements_append P [h] hs

theorem allElements_flatMap {α : Type} {l : List α} {f : α → List Html} :
    AllElements P (l.flatMap f) ↔ ∀ a ∈ l, AllElements P (f a) := by
  induction l with
  | nil => simp [allElements_nil]
  | cons a l ih => rw [List.flatMap_cons, allElements_append, ih, List.forall_mem_cons]

theorem allElements_text {s : String} : AllElements P [.text s] := fun _ _ _ _ hm => by
  simp [subtreesAll, subtrees] at hm

theorem allElements_element {tag : String} {key : Option String} {props : Props}
    {kids : List Html} :
    AllElements P [.element tag key props kids] ↔
      P tag key props kids ∧ AllElements P kids := by
  simp only [AllElements, subtreesAll, subtrees, List.append_nil, List.mem_cons, or_imp,
    forall_and]
  refine and_congr ⟨fun H => H tag key props kids rfl, fun H _ _ _ _ he => ?_⟩ Iff.rfl
  cases he
  exact H

theorem allElements_fragment {key : Option String} {kids : List Html} :
    AllElements P [.fragment key kids] ↔ AllElements P kids := by
  simp [AllElements, subtreesAll, subtrees]

/-- A property of the root of a tree, if that is an element. -/
def AtRoot (P : String → Option String → Props → List Html → Prop) : Html → Prop
  | element tag key props kids => P tag key props kids
  | text _ | fragment .. => True

instance [∀ tag key props kids, Decidable (P tag key props kids)] :
    DecidablePred (AtRoot P)
  | element tag key props kids => inferInstanceAs (Decidable (P tag key props kids))
  | text _ | fragment .. => isTrue trivial

theorem allElements_iff {hs : List Html} :
    AllElements P hs ↔ ∀ h ∈ subtreesAll hs, AtRoot P h := by
  refine ⟨fun H h hm => ?_, fun H tag key props kids hm => H _ hm⟩
  cases h with
  | element tag key props kids => exact H tag key props kids hm
  | _ => trivial

instance [∀ tag key props kids, Decidable (P tag key props kids)] (hs : List Html) :
    Decidable (AllElements P hs) := decidable_of_iff _ allElements_iff.symm

end AllElements

end DocMarkup.Html
