import DocMarkup.Proofs.Footnote.Draining
import DocMarkup.Proofs.Render.PlainOutput

/-!
# Landmarks of the endnotes section

The endnotes section has a role, and so has the link back in each of its items. A link back goes
inside the last node of a note where it can. If that node is a reference, the reference holds the
link back besides its number, and it still shows that number and nothing else.

## Main definitions

* `Endnotes.sectionOf` : the endnotes section with given items.

## Main results

* `Endnotes.landmarks_appendBacklink`, `Endnotes.allElements_appendBacklink` : content with a link
  back at its end.
* `Endnotes.render_fst` : the endnotes without overrides.
-/

namespace DocMarkup

open Html

namespace Endnotes

/-- The landmark of a link back. -/
def backLandmark : Landmark := ⟨"doc-backlink", none⟩

theorem landmarks_backlink (target : String) : landmarks [backlink target] = [backLandmark] := rfl

variable {tag : String} {key : Option String} {props : Props} {kids content : List Html}

/-- A link back at the end of a reference changes nothing of what the reference shows. -/
theorem mark?_append_backlink {m : Mark} (h : mark? (.element tag key props kids) = some m)
    (target : String) : mark? (.element tag key props (kids ++ [backlink target])) = some m := by
  unfold mark? at h
  split at h
  · rename_i tag _ props inner _ _ number rest heq
    cases heq
    split at h
    · rename_i hlink
      have hall : (rest ++ [backlink target]).all (·.role? = some "doc-backlink") = true := by
        rw [List.all_append, hlink.2.2]
        rfl
      rw [List.cons_append, mark?, if_pos ⟨hlink.1, hlink.2.1, hall⟩, h]
    · cases h
  · cases h

theorem landmark?_append_backlink
    (h : ∀ l ∈ landmarks [.element tag key props kids], l.mark?.isSome = true) (target : String) :
    landmark? (.element tag key props (kids ++ [backlink target])) =
      landmark? (.element tag key props kids) := by
  rw [landmarks_element] at h
  rw [landmark?, landmark?]
  change (props.text? "role").map _ = (props.text? "role").map _
  cases hrole : props.text? "role" with
  | none => rfl
  | some role =>
    have hmem : ⟨role, mark? (.element tag key props kids)⟩ ∈
        (landmark? (.element tag key props kids)).toList := by
      rw [landmark?]
      change _ ∈ ((props.text? "role").map _).toList
      rw [hrole]
      exact List.mem_singleton.2 rfl
    obtain ⟨m, hm⟩ : ∃ m, mark? (.element tag key props kids) = some m :=
      Option.isSome_iff_exists.1 (h _ (List.mem_append_left _ hmem))
    rw [Option.map_some, Option.map_some, mark?_append_backlink hm, hm]

/-- The landmarks of content with a link back: the link back comes last. -/
theorem landmarks_appendBacklink (h : ∀ l ∈ landmarks content, l.mark?.isSome = true)
    (target : String) :
    landmarks (appendBacklink content (backlink target)) = landmarks content ++ [backLandmark] := by
  fun_induction appendBacklink content (backlink target) with
  | case1 => rfl
  | case2 tag key props kids =>
    rw [landmarks_element, landmarks_element, landmark?_append_backlink h, landmarks_append,
      landmarks_backlink, List.append_assoc]
  | case3 key kids =>
    rw [landmarks_fragment, landmarks_fragment, landmarks_append, landmarks_backlink]
  | case4 h' rest _ _ ih =>
    rw [landmarks_cons, landmarks_cons h' rest] at *
    rw [ih fun l hl => h l (List.mem_append_right _ hl), List.append_assoc]

/-- A reading that does not look inside elements finds in content with a link back what it finds in
the content and in the link. -/
theorem collect_appendBacklink {α : Type} {f : Html → Option α} {S : String → Bool} {b : Html}
    (hf : Overlooks f S)
    (hkids : ∀ tag key props kids kids', f (.element tag key props kids) =
      f (.element tag key props kids')) :
    collect f (appendBacklink content b) = collect f content ++ collect f [b] := by
  fun_induction appendBacklink content b with
  | case1 => rfl
  | case2 tag key props kids =>
    rw [collect_element, collect_element, collect_append, hkids tag key props _ kids,
      List.append_assoc]
  | case3 key kids => rw [hf.collect_fragment, hf.collect_fragment, collect_append]
  | case4 h' rest _ _ ih => rw [collect_cons, collect_cons h' rest, ih, List.append_assoc]

/-- A link back changes no properties, so what holds of the properties of all elements still
does. -/
theorem allElements_appendBacklink {P : String → Option String → Props → Prop} {b : Html}
    (h : AllElements (fun tag key props _ => P tag key props) content)
    (hb : AllElements (fun tag key props _ => P tag key props) [b]) :
    AllElements (fun tag key props _ => P tag key props) (appendBacklink content b) := by
  fun_induction appendBacklink content b with
  | case1 => exact hb
  | case2 tag key props kids =>
    obtain ⟨helement, hkids⟩ := allElements_element.1 h
    exact allElements_element.2 ⟨helement, allElements_append.2 ⟨hkids, hb⟩⟩
  | case3 key kids =>
    have hkids := allElements_fragment.1 h
    exact allElements_fragment.2 (allElements_append.2 ⟨hkids, hb⟩)
  | case4 h' rest _ _ ih =>
    obtain ⟨hfirst, hrest⟩ := allElements_cons.1 h
    exact allElements_cons.2 ⟨hfirst, ih hrest⟩

/-- The endnotes section with these items. -/
def sectionOf (items : List Html) : Html :=
  .element "section" (some "endnotes") (Single.single "role" "doc-endnotes")
    [.element "hr" (some "hr") ∅ [], .element "ol" (some "ol") ∅ items]

/-- A reading that does not look for roles finds in the section what it finds in its items. -/
theorem collect_sectionOf {α : Type} {f : Html → Option α} {S : String → Bool}
    (hf : Overlooks f S) (hrole : S "role" = false) (items : List Html) :
    collect f [sectionOf items] = collect f items := by
  have hsection : (Single.single "role" "doc-endnotes").Lacks S :=
    Props.lacks_empty.insert hrole _
  rw [sectionOf, hf.collect_element_of_lacks (by decide) hsection, collect_cons,
    hf.collect_element_of_lacks (by decide) Props.lacks_empty,
    hf.collect_element_of_lacks (by decide) Props.lacks_empty]
  rfl

theorem landmarks_sectionOf (items : List Html) :
    landmarks [sectionOf items] = ⟨"doc-endnotes", none⟩ :: landmarks items := by
  rw [sectionOf, landmarks_element, landmarks_cons, landmarks_element_of_role rfl,
    landmarks_element_of_role rfl]
  rfl

theorem withRole_sectionOf (items : List Html) :
    withRole "doc-endnotes" [sectionOf items] =
      sectionOf items :: withRole "doc-endnotes" items := by
  have hrole : (Single.single "role" "doc-endnotes").text? "role" = some "doc-endnotes" :=
    Props.text?_insert_self _
  rw [sectionOf, withRole_element, if_pos hrole]
  change _ :: withRole "doc-endnotes" ([.element "hr" (some "hr") ∅ []] ++
    [.element "ol" (some "ol") ∅ items]) = _
  rw [withRole_append, withRole_element, withRole_element]
  rfl

/-- Without overrides, the endnotes are their section, unless there are no notes. -/
theorem render_fst {e : Endnotes} (he : e.overrides = ∅) (σ : Numbering) :
    (e.render σ).1 =
      if (e.notes σ).1 = [] then none else some (sectionOf (e.notes σ).1) := by
  rw [render_fst_of_notes]
  by_cases h : (e.notes σ).1 = []
  · rw [if_pos h, if_pos (List.isEmpty_iff.2 h)]
  · rw [if_neg h, if_neg fun hempty => h (List.isEmpty_iff.1 hempty), he, Single.element,
      Overrides.build, Overrides.pick_empty]
    rfl

end Endnotes

end DocMarkup
