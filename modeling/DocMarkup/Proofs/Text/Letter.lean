import DocMarkup.RawHtml.Attribute
import DocMarkup.RawHtml.Token

/-!
# Letters of names

The classes of characters that names of tags and attributes are made of, by their numbers, and
what making letters small does to them.

## Main results

* `Text.isAlphanum_iff` : letters and digits by their numbers.
* `Text.toLower_eq_self`, `Text.isUpper_toLower`, `Text.toLower_toLower` : making small.
* `Text.toUpper_toLower`, `Text.toLower_toUpper` : making small and making a capital undo each other.
* `RawHtml.not_isDelimiter_of_isAlphanum`, `RawHtml.isNameChar_toLower` : the classes of names.
-/

namespace DocMarkup

namespace Text

theorem isUpper_iff_val {c : Char} :
    c.isUpper = true ↔ c.val ≥ 'A'.val ∧ c.val ≤ 'Z'.val := decide_eq_true_iff

theorem isUpper_iff {c : Char} : c.isUpper = true ↔ 65 ≤ c.toNat ∧ c.toNat ≤ 90 := by
  rw [isUpper_iff_val, ge_iff_le, UInt32.le_iff_toNat_le, UInt32.le_iff_toNat_le]
  rfl

theorem isLower_iff {c : Char} : c.isLower = true ↔ 97 ≤ c.toNat ∧ c.toNat ≤ 122 := by
  change (decide ('a'.val ≤ c.val) && decide (c.val ≤ 'z'.val)) = true ↔ _
  rw [Bool.and_eq_true, decide_eq_true_iff, decide_eq_true_iff, UInt32.le_iff_toNat_le,
    UInt32.le_iff_toNat_le]
  rfl

theorem isAlpha_eq (c : Char) : c.isAlpha = (c.isUpper || c.isLower) := rfl

theorem isAlpha_iff {c : Char} :
    c.isAlpha = true ↔ (65 ≤ c.toNat ∧ c.toNat ≤ 90) ∨ (97 ≤ c.toNat ∧ c.toNat ≤ 122) := by
  rw [isAlpha_eq, Bool.or_eq_true, isUpper_iff, isLower_iff]

theorem isAlphanum_iff {c : Char} :
    c.isAlphanum = true ↔ (65 ≤ c.toNat ∧ c.toNat ≤ 90) ∨ (97 ≤ c.toNat ∧ c.toNat ≤ 122) ∨
      (48 ≤ c.toNat ∧ c.toNat ≤ 57) := by
  rw [Char.isAlphanum, Bool.or_eq_true, isAlpha_iff, Char.isDigit_iff_toNat, or_assoc]
  rfl

theorem toLower_eq_self {c : Char} (h : c.isUpper = false) : c.toLower = c :=
  dif_neg fun hval => Bool.false_ne_true (h.symm.trans (isUpper_iff_val.2 hval))

theorem toNat_toLower_of_isUpper {c : Char} (h : c.isUpper = true) :
    c.toLower.toNat = c.toNat + 32 := by
  have hc := isUpper_iff.1 h
  refine (congrArg Char.toNat (dif_pos (isUpper_iff_val.1 h))).trans ?_
  rw [Char.toNat_mk, UInt32.toNat_add, Char.toNat_val]
  change (c.toNat + 32) % 4294967296 = c.toNat + 32
  omega

theorem isUpper_toLower (c : Char) : c.toLower.isUpper = false := by
  cases h : c.isUpper with
  | false => rw [toLower_eq_self h, h]
  | true =>
    have hc := isUpper_iff.1 h
    rw [Bool.eq_false_iff, ne_eq, isUpper_iff, toNat_toLower_of_isUpper h]
    omega

theorem toLower_toLower (c : Char) : c.toLower.toLower = c.toLower :=
  toLower_eq_self (isUpper_toLower c)

theorem isAlpha_toLower {c : Char} (h : c.isAlpha = true) : c.toLower.isAlpha = true := by
  cases hu : c.isUpper with
  | false => rwa [toLower_eq_self hu]
  | true =>
    have hc := isUpper_iff.1 hu
    rw [isAlpha_iff, toNat_toLower_of_isUpper hu]
    omega

theorem toNat_toUpper_of_isLower {c : Char} (h : c.isLower = true) :
    c.toUpper.toNat = c.toNat - 32 := by
  have hc := isLower_iff.1 h
  have hval : c.val ≥ 'a'.val ∧ c.val ≤ 'z'.val := by
    rwa [ge_iff_le, UInt32.le_iff_toNat_le, UInt32.le_iff_toNat_le]
  refine (congrArg Char.toNat (dif_pos hval)).trans ?_
  rw [Char.toNat_mk, UInt32.toNat_add, Char.toNat_val]
  change (c.toNat + 4294967264) % 4294967296 = c.toNat - 32
  omega

theorem isLower_toLower {c : Char} (h : c.isUpper = true) : c.toLower.isLower = true := by
  have hc := isUpper_iff.1 h
  rw [isLower_iff, toNat_toLower_of_isUpper h]
  omega

theorem isUpper_toUpper {c : Char} (h : c.isLower = true) : c.toUpper.isUpper = true := by
  have hc := isLower_iff.1 h
  rw [isUpper_iff, toNat_toUpper_of_isLower h]
  omega

theorem isUpper_of_isLower {c : Char} (h : c.isLower = true) : c.isUpper = false := by
  have hc := isLower_iff.1 h
  rw [Bool.eq_false_iff, ne_eq, isUpper_iff]
  omega

/-- A capital made small is the same capital again. -/
theorem toUpper_toLower {c : Char} (h : c.isUpper = true) : c.toLower.toUpper = c := by
  have hc := isUpper_iff.1 h
  refine Char.toNat_inj.1 ?_
  rw [toNat_toUpper_of_isLower (isLower_toLower h), toNat_toLower_of_isUpper h]
  omega

/-- A small letter made a capital is the same small letter again. -/
theorem toLower_toUpper {c : Char} (h : c.isLower = true) : c.toUpper.toLower = c := by
  have hc := isLower_iff.1 h
  refine Char.toNat_inj.1 ?_
  rw [toNat_toLower_of_isUpper (isUpper_toUpper h), toNat_toUpper_of_isLower h]
  omega

theorem isBlank_of_isAlpha {c : Char} (h : c.isAlpha = true) : isBlank c = false := by
  rw [isAlpha_iff] at h
  rw [Bool.eq_false_iff]
  intro hb
  simp only [isBlank, Bool.or_eq_true, Bool.and_eq_true, decide_eq_true_eq, beq_iff_eq] at hb
  omega

end Text

namespace RawHtml

/-- Letters, digits and the marks that names can hold are no delimiters. -/
theorem not_isDelimiter {c : Char}
    (h : c.isAlphanum = true ∨ c = '-' ∨ c = '_' ∨ c = ':' ∨ c = '.') :
    isDelimiter c = false := by
  rcases h with h | rfl | rfl | rfl | rfl
  · rw [Text.isAlphanum_iff] at h
    rw [Bool.eq_false_iff]
    intro hd
    simp only [isDelimiter, Text.isBlank, Bool.or_eq_true, Bool.and_eq_true, decide_eq_true_eq,
      beq_iff_eq] at hd
    rcases hd with ((((((hd | rfl) | rfl) | rfl) | rfl) | rfl) | rfl) | rfl
    · omega
    all_goals revert h; decide
  all_goals decide

theorem isNameChar_toLower {c : Char} (h : isNameChar c = true) :
    isNameChar c.toLower = true := by
  cases hu : c.isUpper with
  | false => rwa [Text.toLower_eq_self hu]
  | true =>
    have hc := Text.isUpper_iff.1 hu
    have ha : c.toLower.isAlphanum = true := by
      rw [Text.isAlphanum_iff, Text.toNat_toLower_of_isUpper hu]
      omega
    simp [isNameChar, ha]

theorem isNameChar_of_isAlpha {c : Char} (h : c.isAlpha = true) : isNameChar c = true := by
  simp [isNameChar, Char.isAlphanum, h]

end RawHtml

end DocMarkup
