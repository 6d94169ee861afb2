import DocMarkup.Proofs.RawHtml.RoundTrip
import DocMarkup.RawHtml.Sanitize

/-!
# How deep raw HTML is nested

Reading raw HTML puts nothing inside a void element and nothing inside an element that is nested too
deep, whatever the text. So sanitized raw HTML can be written and is read as it stands, but for one
thing: an element that is nested too deep is still written with an end tag, and that closes an
element around it that has the same tag.

## Main definitions

* `RawHtml.RawNode.IsCapped` : nothing is inside void elements and inside elements that are nested
  too deep.
* `Html.clashes` : whether an element that is nested too deep has the tag of one around it.

## Main results

* `RawHtml.allCapped_fragment` : the trees of all texts are like that.
* `RawHtml.fitsAllIn_sanitizeNodes` : sanitized raw HTML without clashes is read as it stands.
-/

namespace DocMarkup

namespace RawHtml

namespace RawNode

mutual

/-- Nothing is inside void elements, and nothing is inside elements that are nested too deep, in a
node that stands inside so many elements. -/
def IsCapped (depth : Nat) : RawNode → Prop
  | text _ => True
  | element tag _ kids =>
    if Html.isVoid tag = true ∨ maxDepth ≤ depth then kids = [] else AllCapped (depth + 1) kids

/-- The same for nodes side by side. -/
def AllCapped (depth : Nat) : List RawNode → Prop
  | [] => True
  | n :: rest => IsCapped depth n ∧ AllCapped depth rest

end

variable {depth : Nat}

theorem allCapped_append {ns ms : List RawNode} :
    AllCapped depth (ns ++ ms) ↔ AllCapped depth ns ∧ AllCapped depth ms := by
  induction ns with
  | nil => exact (iff_of_eq (true_and _)).symm
  | cons n ns ih => rw [List.cons_append, AllCapped, AllCapped, ih, and_assoc]

/-- An element without anything in it can stand everywhere. -/
theorem isCapped_empty (tag : String) (attrs : List (String × String)) :
    IsCapped depth (.element tag attrs []) := by
  rw [IsCapped]
  split
  · rfl
  · trivial

theorem IsCapped.of_element {tag : String} {attrs : List (String × String)} {kids : List RawNode}
    (h : IsCapped depth (.element tag attrs kids)) :
    (Html.isVoid tag = true → kids = []) ∧ AllCapped (depth + 1) kids := by
  rw [IsCapped] at h
  split at h
  · exact ⟨fun _ => h, h ▸ trivial⟩
  · rename_i hcap
    exact ⟨fun hv => absurd (Or.inl hv) hcap, h⟩

end RawNode

open RawNode (IsCapped AllCapped)

theorem allCapped_appendText {depth : Nat} {ns : List RawNode} (h : AllCapped depth ns)
    (s : String) : AllCapped depth (appendText ns s) := by
  fun_induction appendText ns s with
  | case1 => exact ⟨trivial, trivial⟩
  | case2 => exact ⟨trivial, trivial⟩
  | case3 n ns _ ih => exact ⟨h.1, ih h.2⟩

theorem grows_allCapped : Grows (fun _ => True) (fun _ _ => True) AllCapped where
  nil _ := trivial
  text _ hns := allCapped_appendText hns _
  empty _ _ hns := RawNode.allCapped_append.2 ⟨hns, RawNode.isCapped_empty _ _, trivial⟩
  element hdepth hvoid _ hkids hns := by
    refine RawNode.allCapped_append.2 ⟨hns, ?_, trivial⟩
    rw [RawNode.IsCapped, if_neg (by simp [hvoid, Nat.not_le.2 hdepth])]
    exact hkids

/-- **Nothing is nested too deep in the tree of a text.** -/
theorem allCapped_fragment (s : String) : AllCapped 0 (fragment s) :=
  grows_allCapped.fragment fun t _ => by cases t <;> trivial

end RawHtml

/-! ### Sanitized raw HTML -/

namespace Html

open RawHtml (maxDepth)

mutual

/-- Whether an element that is nested too deep to hold anything has the tag of an element around
it, in a tree inside elements of the given tags. -/
def clashes (around : List String) : Html → Bool
  | text _ => false
  | fragment _ kids => clashesAll around kids
  | element tag _ _ kids =>
    (!isVoid tag && decide (maxDepth ≤ around.length) && around.contains tag) ||
      clashesAll (tag :: around) kids

/-- The same for trees side by side. -/
def clashesAll (around : List String) : List Html → Bool
  | [] => false
  | h :: rest => clashes around h || clashesAll around rest

end

theorem clashesAll_append (around : List String) (hs hs' : List Html) :
    clashesAll around (hs ++ hs') = (clashesAll around hs || clashesAll around hs') := by
  induction hs with
  | nil => rfl
  | cons h hs ih => rw [List.cons_append, clashesAll, clashesAll, ih, Bool.or_assoc]

theorem fitsAllIn_append {around : List String} {hs hs' : List Html} :
    FitsAllIn around (hs ++ hs') ↔ FitsAllIn around hs ∧ FitsAllIn around hs' := by
  induction hs with
  | nil => exact (iff_of_eq (true_and _)).symm
  | cons h hs ih => rw [List.cons_append, FitsAllIn, FitsAllIn, ih, and_assoc]

mutual

theorem hasEmptyVoids_of_fitsIn {around : List String} :
    (h : Html) → FitsIn around h → HasEmptyVoids [h]
  | text _, _ => allElements_text
  | fragment _ kids, H => allElements_fragment.2 (hasEmptyVoids_of_fitsAllIn kids H)
  | element tag _ _ kids, H => by
      rw [FitsIn] at H
      rw [HasEmptyVoids, allElements_element]
      split at H
      · exact ⟨fun _ => H, by rw [H]; exact allElements_nil⟩
      · rename_i hvoid
        refine ⟨fun h => absurd h hvoid, ?_⟩
        split at H
        · exact hasEmptyVoids_of_fitsAllIn kids H
        · rw [H.1]
          exact allElements_nil

/-- Trees that are read as they stand have empty void elements. -/
theorem hasEmptyVoids_of_fitsAllIn {around : List String} :
    (hs : List Html) → FitsAllIn around hs → HasEmptyVoids hs
  | [], _ => allElements_nil
  | h :: rest, H =>
      allElements_cons.2 ⟨hasEmptyVoids_of_fitsIn h H.1, hasEmptyVoids_of_fitsAllIn rest H.2⟩

end

end Html

namespace RawHtml

open Html (clashesAll FitsIn FitsAllIn)
open RawNode (IsCapped AllCapped)

mutual

theorem fitsAllIn_sanitizeNode? (around : List String) (key : String) (i : Nat) :
    (n : RawNode) → IsCapped around.length n →
      clashesAll around (sanitizeNode? key i n).toList = false →
      FitsAllIn around (sanitizeNode? key i n).toList
  | .text s, _, _ => ⟨trivial, trivial⟩
  | .element tag attrs kids, hcap, hclash => by
      rw [sanitizeNode?] at hclash ⊢
      split
      · trivial
      · rename_i hb
        rw [if_neg hb] at hclash
        simp only [Option.toList, clashesAll, Html.clashes, Bool.or_false, Bool.or_eq_false_iff,
          Bool.and_eq_false_iff, Bool.not_eq_false', decide_eq_false_iff_not,
          List.contains_eq_mem] at hclash
        refine ⟨?_, trivial⟩
        rw [IsCapped] at hcap
        rw [FitsIn]
        by_cases hvoid : Html.isVoid tag = true
        · rw [if_pos (Or.inl hvoid)] at hcap
          rw [if_pos hvoid, hcap]
          rfl
        · rw [if_neg hvoid]
          by_cases hdeep : around.length < maxDepth
          · rw [if_neg (not_or.2 ⟨hvoid, Nat.not_le.2 hdeep⟩)] at hcap
            rw [if_pos hdeep]
            exact fitsAllIn_sanitizeNodes (tag :: around) _ 0 kids hcap hclash.2
          · rw [if_pos (Or.inr (Nat.not_lt.1 hdeep))] at hcap
            rw [if_neg hdeep, hcap]
            exact ⟨rfl, (hclash.1.resolve_left fun h =>
              h.elim hvoid fun h => h (Nat.not_lt.1 hdeep))⟩

/-- Sanitized nodes of which none clashes are read as they stand. -/
theorem fitsAllIn_sanitizeNodes (around : List String) (key : String) (i : Nat) :
    (ns : List RawNode) → AllCapped around.length ns →
      clashesAll around (sanitizeNodes key i ns) = false →
      FitsAllIn around (sanitizeNodes key i ns)
  | [], _, _ => trivial
  | n :: rest, hcap, hclash => by
      rw [sanitizeNodes, Html.clashesAll_append, Bool.or_eq_false_iff] at hclash
      rw [sanitizeNodes, Html.fitsAllIn_append]
      exact ⟨fitsAllIn_sanitizeNode? around key i n hcap.1 hclash.1,
        fitsAllIn_sanitizeNodes around key (i + 1) rest hcap.2 hclash.2⟩

end

end RawHtml

end DocMarkup
