import DocMarkup.Proofs.RawHtml.Safety
import DocMarkup.Render.Single

/-!
# Attributes add no hazard

A property is a hazard if it handles an event or holds an address whose scheme must not reach the
output. Whatever attributes are put on top of properties, all hazards among the result were there
before. So the hazards of an element are those that its kind sets, and the kinds set none but the
targets of links and images and the addresses that are their own text.

## Main definitions

* `Props.IsHazard` : a property that must not come from an attribute.
* `Props.AddsNoHazard`, `Props.Harmless` : properties whose hazards are among those of others, or
  that have none.

## Main results

* `Props.AddsNoHazard.withAttributes`, `Node.addsNoHazard_props` : attributes add no hazard.
* `RawHtml.harmless_sanitizeAttributes` : the properties of sanitized raw HTML have none.
-/

namespace DocMarkup

namespace Hazard

/-- An address whose first letter begins no unsafe scheme has none. -/
theorem hasUnsafeScheme_cons {c : Char} (hblank : ¬ c ≤ ' ') (hc : foldCase c ∉ ['j', 'v', 'd'])
    (rest : List Char) : hasUnsafeScheme (c :: rest) = false := by
  have hkept : ¬ (c = '\t' ∨ c = '\n' ∨ c = '\r') := by
    rintro (rfl | rfl | rfl) <;> exact hblank (by decide)
  have hnorm : normalizeUrl (c :: rest) =
      c :: rest.filter fun d => !(d = '\t' || d = '\n' || d = '\r') := by
    rw [normalizeUrl, List.dropWhile_cons_of_neg (by simpa using hblank),
      List.filter_cons_of_pos (by simpa [and_assoc] using hkept)]
  have hheads : ∀ scheme ∈ unsafeSchemes, scheme.head? ∈ [some 'j', some 'v', some 'd'] := by
    decide
  rw [hasUnsafeScheme, List.any_eq_false]
  intro scheme hscheme hprefix
  rw [hnorm, List.map_cons, List.isPrefixOf_iff_prefix] at hprefix
  cases scheme with
  | nil => exact absurd (hheads [] hscheme) (by decide)
  | cons d scheme =>
    obtain ⟨rfl, -⟩ := List.cons_prefix_cons.1 hprefix
    exact hc (by simpa using hheads _ hscheme)

theorem passes_of_hasUnsafeScheme {name value : String} (hon : ¬ StartsWithOn name)
    (h : hasUnsafeScheme value.toList = false) : Passes name value :=
  ⟨hon, by rw [isUnsafeUrl, h, Bool.and_false]; simp⟩

/-- Addresses inside the output itself are safe. -/
theorem passes_anchor (target : String) : Passes "href" ("#" ++ target) :=
  passes_of_hasUnsafeScheme (by decide) (by
    rw [String.toList_append]
    exact hasUnsafeScheme_cons (by decide) (by decide) _)

/-- Addresses of mail are safe. -/
theorem passes_mailto (text : String) : Passes "href" ("mailto:" ++ text) :=
  passes_of_hasUnsafeScheme (by decide) (by
    rw [String.toList_append]
    exact hasUnsafeScheme_cons (by decide) (by decide) _)

end Hazard

namespace Props

variable {p q r : Props} {name : String} {v : PropValue}

/-- A property that handles an event or holds an address whose scheme must not reach the
output. -/
def IsHazard (e : String × PropValue) : Prop :=
  Hazard.StartsWithOn e.1 ∨ ∃ s, e.2 = .text s ∧ Hazard.isUnsafeUrl e.1 s = true

/-- A text is a hazard exactly if an attribute of that name and value is dropped. -/
theorem not_isHazard_text_iff {value : String} :
    ¬ IsHazard (name, .text value) ↔ Hazard.Passes name value := by
  simp [IsHazard, Hazard.Passes]

/-- Properties whose names neither say `on` first nor hold addresses are no hazards. -/
theorem not_isHazard (hon : ¬ Hazard.StartsWithOn name) (hurl : Hazard.isUrlAttribute name = false)
    (v : PropValue) : ¬ IsHazard (name, v) := by
  rintro (h | ⟨s, -, hs⟩)
  · exact hon h
  · exact (Hazard.passes_of_isUrlAttribute hon hurl).2 hs

/-- The hazards of `q` are among those of `p`. -/
def AddsNoHazard (p q : Props) : Prop := ∀ e ∈ q.entries, IsHazard e → e ∈ p.entries

/-- Properties among which there is no hazard. -/
abbrev Harmless (p : Props) : Prop := AddsNoHazard ∅ p

namespace AddsNoHazard

theorem refl : AddsNoHazard p p := fun _ h _ => h

theorem trans (h : AddsNoHazard p q) (h' : AddsNoHazard q r) : AddsNoHazard p r :=
  fun e he hh => h e (h' e he hh) hh

theorem insert (h : AddsNoHazard p q) (hv : ¬ IsHazard (name, v)) :
    AddsNoHazard p (q.insert name v) := fun e he hh => by
  rcases OrderedMap.mem_entries_insert he with rfl | he
  · exact absurd hh hv
  · exact h e he hh

theorem erase (h : AddsNoHazard p q) : AddsNoHazard p (q.erase name) :=
  fun e he => h e (List.mem_filter.1 he).1

theorem addClass (h : AddsNoHazard p q) (classes : String) :
    AddsNoHazard p (q.addClass classes) := by
  unfold Props.addClass
  dsimp only
  split
  · exact h
  · exact h.insert (not_isHazard (by decide) (by decide) _)

theorem addStyle (h : AddsNoHazard p q) (declarations : String) :
    AddsNoHazard p (q.addStyle declarations) := by
  unfold Props.addStyle
  split
  · exact h
  · exact h.erase.insert (not_isHazard (by decide) (by decide) _)

/-- One attribute adds no hazard: it is dropped if it would. -/
theorem addAttribute (h : AddsNoHazard p q) (name value : String) :
    AddsNoHazard p (q.addAttribute name value) := by
  unfold Props.addAttribute
  split
  · exact h
  rename_i hsafe
  split
  · exact h.addClass value
  split
  · exact h.addStyle value
  · exact h.insert (not_isHazard_text_iff.2 (Hazard.passes_iff.2 (by simpa using hsafe)))

/-- **Attributes add no hazard.** -/
theorem withAttributes (h : AddsNoHazard p q) (attrs : Attributes) :
    AddsNoHazard p (q.withAttributes attrs) := by
  rw [Props.withAttributes]
  generalize attrs.entries = es
  induction es generalizing q with
  | nil => exact h
  | cons e es ih => exact ih (h.addAttribute e.1 e.2)

end AddsNoHazard

theorem harmless_empty : Harmless ∅ := .refl

theorem mem_entries_optional {value : Option String} {e : String × PropValue}
    (h : e ∈ (Single.optional p name value).entries) :
    (∃ s, value = some s ∧ e = (name, .text s)) ∨ e ∈ p.entries := by
  cases value with
  | none => exact Or.inr h
  | some s => exact (OrderedMap.mem_entries_insert h).imp_left fun he => ⟨s, rfl, he⟩

theorem AddsNoHazard.optional (h : AddsNoHazard p q) {value : Option String}
    (hv : ∀ s, value = some s → Hazard.Passes name s) :
    AddsNoHazard p (Single.optional q name value) := by
  cases value with
  | none => exact h
  | some s => exact h.insert (not_isHazard_text_iff.2 (hv s rfl))

theorem AddsNoHazard.withSource (h : AddsNoHazard p q) (source : Option Reference) :
    AddsNoHazard p (Single.withSource q source) := by
  cases source with
  | none => exact h
  | some r => exact h.withAttributes r.attributes

/-! ### What the kinds set themselves -/

theorem harmless_single {value : String} (h : Hazard.Passes name value) :
    Harmless (Single.single name value) :=
  harmless_empty.insert (not_isHazard_text_iff.2 h)

theorem harmless_single_of_name (hon : ¬ Hazard.StartsWithOn name)
    (hurl : Hazard.isUrlAttribute name = false) (value : String) :
    Harmless (Single.single name value) :=
  harmless_single (Hazard.passes_of_isUrlAttribute hon hurl)

theorem harmless_alignment (align : Alignment) : Harmless (Single.alignment align) := by
  unfold Single.alignment
  split
  · exact harmless_empty.insert (not_isHazard (by decide) (by decide) _)
  · exact harmless_empty

theorem harmless_startNumber (start : Option UInt64) : Harmless (Single.startNumber start) := by
  unfold Single.startNumber
  split
  · split
    · exact harmless_empty
    · exact harmless_empty.insert (not_isHazard (by decide) (by decide) _)
  · exact harmless_empty

theorem harmless_languageClass (lang : Option String) :
    Harmless (Single.languageClass lang) := by
  unfold Single.languageClass
  split
  · split
    · exact harmless_empty
    · exact harmless_single_of_name (by decide) (by decide) _
  · exact harmless_empty

theorem harmless_checkbox (state : Checkbox) :
    Harmless ((match state with
      | .checked => (Single.single "type" "checkbox").insert "checked" (.flag true)
      | .unchecked => Single.single "type" "checkbox").insert "disabled" (.flag true)) := by
  have htype : Harmless (Single.single "type" "checkbox") :=
    harmless_single_of_name (by decide) (by decide) _
  refine AddsNoHazard.insert ?_ (not_isHazard (by decide) (by decide) _)
  cases state with
  | checked => exact htype.insert (not_isHazard (by decide) (by decide) _)
  | unchecked => exact htype

/-- A link to a place in the output itself. -/
theorem harmless_anchor (target : String) : Harmless (Single.single "href" ("#" ++ target)) :=
  harmless_single (Hazard.passes_anchor target)

theorem harmless_backlink (target : String) :
    Harmless ((Single.single "href" ("#" ++ target)).insert "role" (.text "doc-backlink")) :=
  (harmless_anchor target).insert (not_isHazard (by decide) (by decide) _)

theorem harmless_reference (target id : String) :
    Harmless (((Single.single "href" ("#" ++ target)).insert "id" (.text id)).insert "role"
      (.text "doc-noteref")) :=
  ((harmless_anchor target).insert (not_isHazard (by decide) (by decide) _)).insert
    (not_isHazard (by decide) (by decide) _)

end Props

open Props (AddsNoHazard Harmless IsHazard)

/-- Neither derived attributes nor those that the author gave add a hazard to a node. -/
theorem Node.addsNoHazard_props (n : Node) (own : Props) : AddsNoHazard own (n.props own) :=
  (AddsNoHazard.refl.withAttributes _).withAttributes _

theorem RawHtml.harmless_sanitizeAttributes (attrs : List (String × String)) :
    Harmless (sanitizeAttributes attrs) := fun e he hh => by
  have hfree : Hazard.FreeProps "p" (sanitizeAttributes attrs) :=
    freeProps_sanitizeAttributes rfl attrs
  rcases hh with h | ⟨s, hs, hurl⟩
  · exact absurd h (hfree.no_handler e he)
  · exact absurd hurl (hfree.no_unsafe_url e he s hs)

end DocMarkup
