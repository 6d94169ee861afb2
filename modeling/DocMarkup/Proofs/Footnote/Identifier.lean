import DocMarkup.Footnote.Numbering
import Mathlib.Data.List.Basic

/-!
# Identifiers of references and notes

The identifier of a reference tells the number of its footnote and how many references to it came
before: no other reference has it, and no note.

## Main results

* `Decimal.text_inj` : a numeral tells its number.
* `Numbering.referenceId_inj` : the identifier of a reference tells the reference.
* `Numbering.noteId_ne_referenceId` : no note has the identifier of a reference.
-/

namespace DocMarkup

namespace Decimal

theorem digits_inj {m n : Nat} : digits m = digits n ↔ m = n := by
  refine ⟨fun h => ?_, congrArg digits⟩
  have hread := congrArg (Nat.ofDigitChars 10 · 0) h
  simpa [digits, Nat.ofDigitChars_ten_toDigits] using hread

theorem toList_text (n : Nat) : (text n).toList = digits n := String.toList_ofList

/-- A numeral tells its number. -/
theorem text_inj {m n : Nat} : text m = text n ↔ m = n := by
  rw [text, text, String.ofList_inj, digits_inj]

theorem isDigit_of_mem_digits {n : Nat} {c : Char} (h : c ∈ digits n) : c.isDigit = true :=
  Nat.isDigit_of_mem_toDigits (by decide) (by decide) h

end Decimal

namespace Numbering

/-- The number of a later reference stands behind a mark that is no digit. -/
theorem toList_referenceId (i n : Nat) :
    (referenceId i n).toList =
      "fnref".toList ++ (Decimal.digits i ++ if n = 1 then [] else '-' :: Decimal.digits n) := by
  rw [referenceId]
  split
  · rw [String.toList_append, Decimal.toList_text, List.append_nil]
  · simp only [String.toList_append, Decimal.toList_text, List.append_assoc]
    rfl

theorem dash_notMem_digits (n : Nat) : '-' ∉ Decimal.digits n := fun h =>
  absurd (Decimal.isDigit_of_mem_digits h) (by decide)

/-- **The identifier of a reference tells the reference**: the number of its footnote, and its own
among the references to it. -/
theorem referenceId_inj {i j m n : Nat} : referenceId i m = referenceId j n ↔ i = j ∧ m = n := by
  refine ⟨fun h => ?_, fun h => h.1 ▸ h.2 ▸ rfl⟩
  have hdash (k l : Nat) (rest : List Char) : Decimal.digits k ≠ Decimal.digits l ++ '-' :: rest :=
    fun he => dash_notMem_digits k (he ▸ by simp)
  have hlist := congrArg String.toList h
  rw [toList_referenceId, toList_referenceId, List.append_cancel_left_eq] at hlist
  by_cases hm : m = 1 <;> by_cases hn : n = 1
  · rw [if_pos hm, if_pos hn, List.append_nil, List.append_nil] at hlist
    exact ⟨Decimal.digits_inj.1 hlist, hm.trans hn.symm⟩
  · rw [if_pos hm, if_neg hn, List.append_nil] at hlist
    exact absurd hlist (hdash i j _)
  · rw [if_neg hm, if_pos hn, List.append_nil] at hlist
    exact absurd hlist.symm (hdash j i _)
  · rw [if_neg hm, if_neg hn] at hlist
    obtain ⟨hindex, -, hnumber⟩ := (List.append_cons_inj_of_notMem (dash_notMem_digits i)
      (dash_notMem_digits m)).1 hlist
    exact ⟨Decimal.digits_inj.1 hindex, Decimal.digits_inj.1 hnumber⟩

/-- No note has the identifier of a reference. -/
theorem noteId_ne_referenceId (i j n : Nat) : noteId i ≠ referenceId j n := by
  intro h
  have hlist : "fn".toList ++ Decimal.digits i = "fn".toList ++ ("ref".toList ++ (Decimal.digits j ++
      if n = 1 then [] else '-' :: Decimal.digits n)) := by
    rw [← Decimal.toList_text, ← String.toList_append, ← noteId, h, toList_referenceId]
    rfl
  have hr : 'r' ∈ Decimal.digits i := by
    rw [List.append_cancel_left_eq] at hlist
    rw [hlist]
    exact List.mem_append_left _ (by decide)
  exact absurd (Decimal.isDigit_of_mem_digits hr) (by decide)

end Numbering

end DocMarkup
