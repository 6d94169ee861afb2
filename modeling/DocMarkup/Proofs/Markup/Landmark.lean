import DocMarkup.Proofs.Markup.Collect

/-!
# Landmarks of an output

The elements of an output that have a role. A reference to a footnote is one of them: it shows the
number of the footnote in a raised element, and it may hold a link back besides.

## Main definitions

* `Html.tag?`, `Html.key?`, `Html.property?` : what is asked for of an element.
* `Html.withRole` : the elements with a role, in the order of the output.
* `Html.mark?` : what a reference shows and where it leads.
* `Html.landmarks` : the roles of an output, each with what its element shows as a reference.

## Main results

* `Html.map_mark?_withRole` : what the elements with a role show, from the landmarks.
-/

namespace DocMarkup

/-- What a reference to a footnote shows and where it leads. -/
structure Mark where
  number : String
  href : String
  deriving DecidableEq, Repr

/-- A role in an output, with what its element shows if it is a reference to a footnote. -/
structure Landmark where
  role : String
  mark? : Option Mark
  deriving DecidableEq, Repr

namespace Html

/-- The tag of an element. -/
def tag? : Html → Option String
  | element tag .. => some tag
  | text _ | fragment .. => none

/-- The key of an element or a group. -/
def key? : Html → Option String
  | element _ key .. => key
  | fragment key _ => key
  | text _ => none

/-- The text that a property of an element has. -/
def property? (name : String) : Html → Option String
  | element _ _ props _ => props.text? name
  | text _ | fragment .. => none

/-- The role of an element. -/
def role? : Html → Option String := property? "role"

/-- What an element shows and where it leads, if it is a link to a number alone, not counting
links back. -/
def mark? : Html → Option Mark
  | element tag _ props (element inner _ _ [text number] :: rest) =>
    if tag = "a" ∧ inner = "sup" ∧ rest.all (·.role? = some "doc-backlink") then
      (props.text? "href").map fun href => ⟨number, href⟩
    else none
  | _ => none

/-- The elements with a role in trees side by side, in order. -/
def withRole (role : String) (hs : List Html) : List Html :=
  (subtreesAll hs).filter (·.role? = some role)

/-- The landmark that an element is, if it has a role. -/
def landmark? (h : Html) : Option Landmark := h.role?.map fun role => ⟨role, h.mark?⟩

/-- The landmarks in trees side by side, in order. -/
def landmarks (hs : List Html) : List Landmark := (subtreesAll hs).filterMap landmark?

theorem map_mark?_withRole (role : String) (hs : List Html) :
    (withRole role hs).map mark? = ((landmarks hs).filter (·.role = role)).map Landmark.mark? := by
  rw [withRole, landmarks]
  induction subtreesAll hs with
  | nil => rfl
  | cons h hs ih =>
    cases hr : h.role? with
    | none => simp [landmark?, hr, ih]
    | some r =>
      by_cases hrole : r = role
      · simp [landmark?, hr, hrole, ih]
      · simp [landmark?, hr, hrole, ih]

/-- No element has a role exactly if no landmark has it. -/
theorem withRole_eq_nil_iff {role : String} {hs : List Html} :
    withRole role hs = [] ↔ (landmarks hs).filter (·.role = role) = [] := by
  rw [← List.map_eq_nil_iff (f := mark?), map_mark?_withRole, List.map_eq_nil_iff]

theorem withRole_append (role : String) (hs hs' : List Html) :
    withRole role (hs ++ hs') = withRole role hs ++ withRole role hs' := by
  rw [withRole, subtreesAll_append, List.filter_append, withRole, withRole]

theorem withRole_fragment (role : String) (key : Option String) (kids : List Html) :
    withRole role [fragment key kids] = withRole role kids := by
  rw [withRole, subtreesAll, subtreesAll, subtrees, List.append_nil, List.filter_cons_of_neg]
  · rfl
  · exact Bool.false_ne_true

theorem withRole_element (role tag : String) (key : Option String) (props : Props)
    (kids : List Html) :
    withRole role [element tag key props kids] =
      (if props.text? "role" = some role then [element tag key props kids] else []) ++
        withRole role kids := by
  rw [withRole, subtreesAll, subtreesAll, subtrees, List.append_nil]
  change _ = (if (element tag key props kids).role? = some role then _ else _) ++ _
  by_cases h : (element tag key props kids).role? = some role
  · rw [if_pos h, List.filter_cons_of_pos (by simpa using h)]
    rfl
  · rw [if_neg h, List.filter_cons_of_neg (by simpa using h)]
    rfl

/-- A landmark is an element with a role. -/
theorem overlooks_landmark? : Overlooks landmark? (· == "role") where
  text := fun _ => rfl
  fragment := fun _ _ => rfl
  element := fun tag key props kids _ h => by
    have hrole : role? (element tag key props kids) = none := h.text?_eq_none rfl
    rw [landmark?, hrole]
    rfl

theorem landmarks_append (hs hs' : List Html) :
    landmarks (hs ++ hs') = landmarks hs ++ landmarks hs' := collect_append hs hs'

theorem landmarks_cons (h : Html) (hs : List Html) :
    landmarks (h :: hs) = landmarks [h] ++ landmarks hs := landmarks_append [h] hs

theorem landmarks_fragment (key : Option String) (kids : List Html) :
    landmarks [fragment key kids] = landmarks kids := overlooks_landmark?.collect_fragment key kids

theorem landmarks_element (tag : String) (key : Option String) (props : Props)
    (kids : List Html) :
    landmarks [element tag key props kids] =
      (landmark? (element tag key props kids)).toList ++ landmarks kids :=
  collect_element tag key props kids

theorem landmarks_element_of_role {tag : String} {key : Option String} {props : Props}
    (h : props.text? "role" = none) (kids : List Html) :
    landmarks [element tag key props kids] = landmarks kids := by
  have hrole : role? (element tag key props kids) = none := h
  rw [landmarks_element, landmark?, hrole]
  rfl

end Html

end DocMarkup
