import DocMarkup.Proofs.Text.Letter
import DocMarkup.RawHtml.Hazard
import Mathlib.Data.List.Forall2
import Mathlib.Logic.Relation

/-!
# Disguised schemes

The scheme of an address can be written so that it is hard to see but is still found by whoever
follows the address: with tabs and line ends inside it, with control characters and spaces in front
of it, and in any mix of capitals. No such disguise changes whether an address is held to be
unsafe. Tabs and line ends are themselves passed over in front of an address, so it does not matter
whether they are taken out before the front is cut off or after that.

## Main definitions

* `Hazard.Disguise` : a step of a disguise.
* `Hazard.bareUrl` : an address without anything that hides its scheme.
* `Hazard.StartsLike` : a text starts with a scheme, in any mix of capitals.

## Main results

* `Hazard.normalizeUrl_eq_bareUrl` : the two orders of cleaning an address agree.
* `Hazard.hasUnsafeScheme_of_disguise` : a step of a disguise is seen through.
* `Hazard.isUnsafeUrl_seenThrough` : no disguise matters, and which addresses are unsafe.
-/

namespace DocMarkup.Hazard

/-- Tabs and line ends, which are passed over anywhere in an address. -/
def isBreak (c : Char) : Bool := c = '\t' || c = '\n' || c = '\r'

/-- A step of a disguise: a tab or a line end is put in anywhere, a control character or a space is
put in front, or letters change their case. -/
inductive Disguise : List Char → List Char → Prop
  | insert (before after : List Char) {c : Char} (hc : isBreak c = true) :
      Disguise (before ++ after) (before ++ c :: after)
  | pad (s : List Char) {c : Char} (hc : c ≤ ' ') : Disguise s (c :: s)
  | recase {s t : List Char} (h : s.map Char.toLower = t.map Char.toLower) : Disguise s t

/-- An address with all tabs and line ends taken out, and then the control characters and spaces
in front. -/
def bareUrl (s : List Char) : List Char := (s.filter fun c => !isBreak c).dropWhile (· ≤ ' ')

/-- The character can stand for a small letter of a scheme, or for its colon: case does not matter,
and the long s is an s. -/
def StandsFor (c letter : Char) : Prop := c.toLower = letter ∨ c = '\u017f' ∧ letter = 's'

instance (c letter : Char) : Decidable (StandsFor c letter) :=
  inferInstanceAs (Decidable (_ ∨ _))

/-- The text starts with the scheme, in any mix of capitals. -/
def StartsLike (s : List Char) (scheme : String) : Prop :=
  ∃ start rest, s = start ++ rest ∧ List.Forall₂ StandsFor start scheme.toList

/-! ### Cleaning in either order -/

theorem le_space_of_isBreak {c : Char} (h : isBreak c = true) : c ≤ ' ' := by
  simp only [isBreak, Bool.or_eq_true, decide_eq_true_eq] at h
  rcases h with (rfl | rfl) | rfl <;> decide

/-- Where everything that is taken out may also stand in front, a front that is cut off first and
one that is cut off last leave the same. -/
theorem filter_dropWhile {p q : Char → Bool} (h : ∀ c, q c = false → p c = true) (s : List Char) :
    (s.dropWhile p).filter q = (s.filter q).dropWhile p := by
  induction s with
  | nil => rfl
  | cons c s ih =>
    cases hp : p c with
    | true =>
      rw [List.dropWhile_cons_of_pos hp, ih]
      cases hq : q c with
      | true => rw [List.filter_cons_of_pos hq, List.dropWhile_cons_of_pos hp]
      | false => rw [List.filter_cons_of_neg (by simp [hq])]
    | false =>
      have hq : q c = true := by
        cases hq : q c with
        | true => rfl
        | false => exact absurd ((h c hq).symm.trans hp) (by decide)
      rw [List.dropWhile_cons_of_neg (by simp [hp]), List.filter_cons_of_pos hq,
        List.dropWhile_cons_of_neg (by simp [hp])]

/-- An address is the same whether its front is cut off before tabs and line ends are taken out or
after that. -/
theorem normalizeUrl_eq_bareUrl (s : List Char) : normalizeUrl s = bareUrl s :=
  filter_dropWhile (q := fun c => !isBreak c)
    (fun _ hc => decide_eq_true (le_space_of_isBreak (by simpa using hc))) s

/-! ### Steps of a disguise -/

theorem bareUrl_insert {c : Char} (hc : isBreak c = true) (before after : List Char) :
    bareUrl (before ++ c :: after) = bareUrl (before ++ after) := by
  rw [bareUrl, bareUrl, List.filter_append, List.filter_append,
    List.filter_cons_of_neg (by simp [hc])]

theorem bareUrl_pad {c : Char} (hc : c ≤ ' ') (s : List Char) : bareUrl (c :: s) = bareUrl s := by
  cases hbreak : isBreak c with
  | true => exact bareUrl_insert hbreak [] s
  | false =>
    rw [bareUrl, List.filter_cons_of_pos (by simp [hbreak]),
      List.dropWhile_cons_of_pos (p := fun d => decide (d ≤ ' ')) (decide_eq_true hc), bareUrl]

/-- What is in front of an address, and what is passed over in it, are no letters. -/
theorem toLower_of_le_space {c : Char} (h : c.toLower ≤ ' ' ∨ c ≤ ' ') : c.toLower = c := by
  cases hu : c.isUpper with
  | false => exact Text.toLower_eq_self hu
  | true =>
    have hc := Text.isUpper_iff.1 hu
    have hlower := Text.toNat_toLower_of_isUpper hu
    simp only [Char.le_def, UInt32.le_iff_toNat_le, Char.toNat_val] at h
    have hspace : ' '.toNat = 32 := rfl
    omega

theorem bareUrl_map_toLower (s : List Char) :
    bareUrl (s.map Char.toLower) = (bareUrl s).map Char.toLower := by
  have hspace : (fun c : Char => decide (c.toLower ≤ ' ')) = fun c => decide (c ≤ ' ') := by
    funext c
    refine decide_eq_decide.2 ⟨fun h => ?_, fun h => ?_⟩
    · rwa [← toLower_of_le_space (Or.inl h)]
    · rwa [toLower_of_le_space (Or.inr h)]
  have hbreak : (fun c : Char => !isBreak c.toLower) = fun c => !isBreak c := by
    funext c
    cases hc : isBreak c.toLower with
    | true => rw [toLower_of_le_space (Or.inl (le_space_of_isBreak hc))] at hc; rw [hc]
    | false =>
      cases hc' : isBreak c with
      | false => rfl
      | true =>
        rw [toLower_of_le_space (Or.inr (le_space_of_isBreak hc')), hc'] at hc
        cases hc
  rw [bareUrl, bareUrl, List.filter_map, List.dropWhile_map]
  exact congrArg (List.map Char.toLower) (congrArg₂ List.dropWhile hspace
    (congrArg (List.filter · s) hbreak))

theorem foldCase_toLower (c : Char) : foldCase c.toLower = foldCase c := by
  cases hu : c.isUpper with
  | false => rw [Text.toLower_eq_self hu]
  | true =>
    have hne : c ≠ '\u017f' := by
      rintro rfl
      revert hu
      decide
    have hne' : c.toLower ≠ '\u017f' := fun he => by
      have hc := Text.isUpper_iff.1 hu
      have hlower := Text.toNat_toLower_of_isUpper hu
      rw [he] at hlower
      have hlong : '\u017f'.toNat = 383 := rfl
      omega
    rw [foldCase, foldCase, if_neg hne, if_neg hne', Text.toLower_toLower]

/-- Whether an address has an unsafe scheme does not depend on the case of its letters. -/
theorem hasUnsafeScheme_map_toLower (s : List Char) :
    hasUnsafeScheme (s.map Char.toLower) = hasUnsafeScheme s := by
  have hfold : foldCase ∘ Char.toLower = foldCase := funext foldCase_toLower
  rw [hasUnsafeScheme, hasUnsafeScheme, normalizeUrl_eq_bareUrl, normalizeUrl_eq_bareUrl,
    bareUrl_map_toLower, List.map_map, hfold]

/-- A step of a disguise is seen through. -/
theorem hasUnsafeScheme_of_disguise {s t : List Char} (h : Disguise s t) :
    hasUnsafeScheme t = hasUnsafeScheme s := by
  cases h with
  | insert before after hc =>
    rw [hasUnsafeScheme, hasUnsafeScheme, normalizeUrl_eq_bareUrl, bareUrl_insert hc,
      ← normalizeUrl_eq_bareUrl]
  | pad s hc =>
    rw [hasUnsafeScheme, hasUnsafeScheme, normalizeUrl_eq_bareUrl, bareUrl_pad hc,
      ← normalizeUrl_eq_bareUrl]
  | recase h => rw [← hasUnsafeScheme_map_toLower t, ← h, hasUnsafeScheme_map_toLower]

/-- A disguise is seen through, however many steps it takes. -/
theorem hasUnsafeScheme_of_disguised {s t : List Char} (h : Relation.ReflTransGen Disguise s t) :
    hasUnsafeScheme t = hasUnsafeScheme s := by
  induction h with
  | refl => rfl
  | tail _ hstep ih => rw [hasUnsafeScheme_of_disguise hstep, ih]

/-! ### Unsafe addresses -/

theorem foldCase_eq_iff {c letter : Char} (h : letter ≠ '\u017f') :
    foldCase c = letter ↔ StandsFor c letter := by
  rw [foldCase, StandsFor]
  by_cases hc : c = '\u017f'
  · subst hc
    rw [if_pos rfl]
    refine ⟨fun hs => Or.inr ⟨rfl, hs.symm⟩, ?_⟩
    rintro (hl | ⟨-, rfl⟩)
    · exact absurd hl.symm h
    · rfl
  · rw [if_neg hc]
    exact ⟨Or.inl, fun hl => hl.resolve_right fun hs => hc hs.1⟩

theorem map_foldCase_eq_iff {letters : List Char} (h : '\u017f' ∉ letters) (s : List Char) :
    s.map foldCase = letters ↔ List.Forall₂ StandsFor s letters := by
  induction s generalizing letters with
  | nil => rw [List.map_nil, List.forall₂_nil_left_iff, eq_comm]
  | cons c s ih =>
    cases letters with
    | nil => simp
    | cons letter letters =>
      rw [List.mem_cons, not_or] at h
      rw [List.map_cons, List.cons.injEq, List.forall₂_cons, foldCase_eq_iff (Ne.symm h.1),
        ih h.2]

/-- A scheme is at the front of a text that is made small exactly if the text starts like it. -/
theorem isPrefixOf_map_foldCase_iff {scheme : String} (h : '\u017f' ∉ scheme.toList)
    (s : List Char) :
    scheme.toList.isPrefixOf (s.map foldCase) = true ↔ StartsLike s scheme := by
  rw [List.isPrefixOf_iff_prefix, StartsLike]
  constructor
  · rintro ⟨rest, hrest⟩
    obtain ⟨start, tail, rfl, hstart, -⟩ := List.map_eq_append_iff.1 hrest.symm
    exact ⟨start, tail, rfl, (map_foldCase_eq_iff h start).1 hstart⟩
  · rintro ⟨start, rest, rfl, hstart⟩
    exact ⟨rest.map foldCase, by rw [List.map_append, (map_foldCase_eq_iff h start).2 hstart]⟩

/-- **No disguise of a scheme matters.** An attribute is held to be unsafe or safe alike whatever
tabs and line ends are put into its value, whatever control characters and spaces are put in front
of it, and whatever the case of the letters in its name and value. An attribute that holds an
address is unsafe exactly if the address, with tabs and line ends taken out and then the control
characters and spaces in front, starts with one of three schemes in any mix of capitals. -/
theorem isUnsafeUrl_seenThrough (name value : String) :
    (∀ name' value', name'.toList.map Char.toLower = name.toList.map Char.toLower →
        Relation.ReflTransGen Disguise value.toList value'.toList →
          isUnsafeUrl name' value' = isUnsafeUrl name value) ∧
      (isUrlAttribute name = true →
        (isUnsafeUrl name value = true ↔
          ∃ scheme ∈ ["javascript:", "vbscript:", "data:"],
            StartsLike (bareUrl value.toList) scheme)) := by
  refine ⟨fun name' value' hname hvalue => ?_, fun hname => ?_⟩
  · rw [isUnsafeUrl, isUnsafeUrl, isUrlAttribute, isUrlAttribute, hname,
      hasUnsafeScheme_of_disguised hvalue]
  · have hlong : ∀ scheme ∈ ["javascript:", "vbscript:", "data:"],
        '\u017f' ∉ String.toList scheme := by decide
    have hschemes : unsafeSchemes = ["javascript:", "vbscript:", "data:"].map String.toList := rfl
    rw [isUnsafeUrl, hname, Bool.true_and, hasUnsafeScheme, hschemes, List.any_map,
      List.any_eq_true, normalizeUrl_eq_bareUrl]
    refine exists_congr fun scheme => and_congr_right fun hscheme => ?_
    exact isPrefixOf_map_foldCase_iff (hlong scheme hscheme) _

/-- A script behind a control character and a space, with a tab and capitals in its scheme, and one
whose scheme has a line end behind another one and a long s. -/
theorem isUnsafeUrl_seenThrough_script :
    Relation.ReflTransGen Disguise "javascript:x".toList "\u0001 java\tSCRIPT:x".toList ∧
      isUnsafeUrl "HREF" "\u0001 java\tSCRIPT:x" = isUnsafeUrl "href" "javascript:x" ∧
        isUnsafeUrl "xlink:href" "\n\n VB\r\u017fcript:y" = true := by
  have hdisguise : Relation.ReflTransGen Disguise "javascript:x".toList
      "\u0001 java\tSCRIPT:x".toList := by
    have hcase : Disguise "javascript:x".toList "javaSCRIPT:x".toList := .recase (by decide)
    have htab : Disguise "javaSCRIPT:x".toList "java\tSCRIPT:x".toList :=
      .insert "java".toList "SCRIPT:x".toList (by decide)
    exact (((Relation.ReflTransGen.single hcase).tail htab).tail (.pad _ (by decide))).tail
      (.pad " java\tSCRIPT:x".toList (by decide))
  exact ⟨hdisguise, (isUnsafeUrl_seenThrough "href" "javascript:x").1 "HREF" _ (by decide)
    hdisguise, ((isUnsafeUrl_seenThrough "xlink:href" _).2 (by decide)).2 ⟨"vbscript:", by decide,
      "VB\u017fcript:".toList, "y".toList, by decide, by decide⟩⟩

end DocMarkup.Hazard
