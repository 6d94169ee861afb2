import DocMarkup.Proofs.Markup.Subtrees

/-!
# What is found in an output

A reading asks every tree in an output for one thing: its role, its identifier, whether it has a
fault. What it finds in an element comes before what it finds in the element's children. Most
readings look at a few properties only and overlook all elements without these.

## Main definitions

* `Html.collect` : what a reading finds in trees side by side.
* `Props.Lacks` : properties none of which has a name in a set.
* `Html.Overlooks` : a reading that needs a property with a name in a set to find anything.
-/

namespace DocMarkup

/-- No property has a name in the set. -/
def Props.Lacks (S : String → Bool) (p : Props) : Prop := ∀ name, S name = true → p.get? name = none

theorem Props.lacks_empty {S : String → Bool} : Props.Lacks S ∅ := fun _ _ => rfl

theorem Props.Lacks.text?_eq_none {S : String → Bool} {p : Props} (h : p.Lacks S) {name : String}
    (hname : S name = true) : p.text? name = none := by
  rw [text?, h name hname]

namespace Html

/-- What a reading of single trees finds in trees side by side, in order. -/
def collect {α : Type} (f : Html → Option α) (hs : List Html) : List α :=
  (subtreesAll hs).filterMap f

/-- The tags of the elements that a rendering without overrides is made of. -/
def defaultTags : List String :=
  ["div", "p", "em", "strong", "mark", "sup", "sub", "ins", "del", "span", "table", "caption",
    "thead", "tbody", "tr", "th", "td", "ul", "ol", "li", "dl", "dt", "dd", "blockquote", "h1",
    "h2", "h3", "h4", "h5", "h6", "a", "img", "hr", "br", "input", "pre", "code", "section"]

/-- A reading that finds nothing but elements, and only elements that have a property with a name
in the set or a tag that no rendering without overrides has. -/
structure Overlooks {α : Type} (f : Html → Option α) (S : String → Bool) : Prop where
  text : ∀ s, f (.text s) = none
  fragment : ∀ key kids, f (.fragment key kids) = none
  element : ∀ tag key props kids, tag ∈ defaultTags → Props.Lacks S props →
    f (.element tag key props kids) = none

variable {α : Type} {f : Html → Option α} {S : String → Bool}

theorem collect_nil : collect f [] = [] := rfl

theorem collect_append (hs hs' : List Html) :
    collect f (hs ++ hs') = collect f hs ++ collect f hs' := by
  rw [collect, subtreesAll_append, List.filterMap_append, collect, collect]

theorem collect_cons (h : Html) (hs : List Html) :
    collect f (h :: hs) = collect f [h] ++ collect f hs := collect_append [h] hs

theorem collect_flatMap {β : Type} (l : List β) (g : β → List Html) :
    collect f (l.flatMap g) = l.flatMap fun b => collect f (g b) := by
  induction l with
  | nil => rfl
  | cons b l ih => rw [List.flatMap_cons, List.flatMap_cons, collect_append, ih]

/-- What is found in an element: what it is itself, then what is inside. -/
theorem collect_element (tag : String) (key : Option String) (props : Props) (kids : List Html) :
    collect f [element tag key props kids] =
      (f (element tag key props kids)).toList ++ collect f kids := by
  rw [collect, subtreesAll, subtreesAll, subtrees, List.append_nil, List.filterMap_cons]
  cases f (element tag key props kids) <;> rfl

namespace Overlooks

variable (hf : Overlooks f S)

include hf

theorem collect_text (s : String) : collect f [Html.text s] = [] := by
  rw [collect, subtreesAll, subtreesAll, subtrees, List.append_nil, List.filterMap_cons, hf.text]
  rfl

theorem collect_fragment (key : Option String) (kids : List Html) :
    collect f [Html.fragment key kids] = collect f kids := by
  rw [collect, subtreesAll, subtreesAll, subtrees, List.append_nil, List.filterMap_cons,
    hf.fragment]
  rfl

theorem collect_element_of_lacks {tag : String} (htag : tag ∈ defaultTags) {props : Props}
    (hprops : props.Lacks S) (key : Option String) (kids : List Html) :
    collect f [Html.element tag key props kids] = collect f kids := by
  rw [collect_element, hf.element tag key props kids htag hprops]
  rfl

end Overlooks

end Html

end DocMarkup
