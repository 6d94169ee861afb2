import DocMarkup.Text.Blank
import DocMarkup.Text.Split
import Mathlib.Data.List.TakeWhile

/-!
# Trimmed texts and joined pieces

What cutting the blanks off a text leaves alone, cutting a text where a run of characters of a class
ends, and cutting it at a separator that was put between its pieces.

## Main results

* `Text.trim_eq_self`, `Text.trim_trim` : a text without blanks at its ends stays as it is.
* `Text.takeWhile_run`, `Text.dropWhile_run` : a run is cut off where it ends.
* `Text.split_intercalate` : joined pieces are cut apart again.
-/

namespace DocMarkup.Text

variable {s : List Char}

/-! ### Blanks at the ends -/

theorem trimStart_eq_self (h : ∀ c ∈ s.head?, isBlank c = false) : trimStart s = s := by
  cases s with
  | nil => rfl
  | cons c s => exact List.dropWhile_cons_of_neg (by rw [h c rfl]; exact Bool.false_ne_true)

theorem trimEnd_eq_self (h : ∀ c ∈ s.getLast?, isBlank c = false) : trimEnd s = s := by
  have hrev : s.reverse.dropWhile isBlank = s.reverse :=
    trimStart_eq_self fun c hc => h c (by rwa [List.head?_reverse] at hc)
  rw [trimEnd, hrev, List.reverse_reverse]

/-- A text without blanks at its ends stays as it is. -/
theorem trim_eq_self (hhead : ∀ c ∈ s.head?, isBlank c = false)
    (hlast : ∀ c ∈ s.getLast?, isBlank c = false) : trim s = s := by
  rw [trim, trimStart_eq_self hhead, trimEnd_eq_self hlast]

/-- Behind a run stands no more of its class. -/
theorem head?_dropWhile (p : Char → Bool) (s : List Char) :
    ∀ c ∈ (s.dropWhile p).head?, p c = false := fun c hc => by
  have h := List.head?_dropWhile_not p s
  rw [hc] at h
  simpa using h

theorem head?_trimStart (s : List Char) : ∀ c ∈ (trimStart s).head?, isBlank c = false :=
  head?_dropWhile isBlank s

theorem getLast?_trimEnd (s : List Char) : ∀ c ∈ (trimEnd s).getLast?, isBlank c = false :=
  fun c hc => head?_trimStart s.reverse c (by rwa [trimEnd, List.getLast?_reverse] at hc)

theorem trimEnd_prefix_self (s : List Char) : trimEnd s <+: s := by
  have h := List.dropWhile_suffix (l := s.reverse) isBlank
  rw [← List.reverse_prefix, List.reverse_reverse] at h
  exact h

theorem head?_trim (s : List Char) : ∀ c ∈ (trim s).head?, isBlank c = false := fun c hc => by
  obtain ⟨rest, hrest⟩ := trimEnd_prefix_self (trimStart s)
  refine head?_trimStart s c ?_
  rw [← hrest, show trimEnd (trimStart s) = trim s from rfl, List.head?_append, hc]
  rfl

theorem getLast?_trim (s : List Char) : ∀ c ∈ (trim s).getLast?, isBlank c = false :=
  getLast?_trimEnd _

theorem trim_trim (s : List Char) : trim (trim s) = trim s :=
  trim_eq_self (head?_trim s) (getLast?_trim s)

theorem trim_sublist (s : List Char) : (trim s).Sublist s :=
  (trimEnd_prefix_self _).sublist.trans (List.dropWhile_sublist _)

/-! ### Runs -/

section Runs

variable {p : Char → Bool} {run rest : List Char}

theorem takeWhile_run (hrun : ∀ c ∈ run, p c = true) (hrest : ∀ c ∈ rest.head?, p c = false) :
    (run ++ rest).takeWhile p = run := by
  rw [List.takeWhile_append_of_pos hrun]
  cases rest with
  | nil => exact List.append_nil run
  | cons c rest => rw [List.takeWhile_cons_of_neg (by simp [hrest c rfl]), List.append_nil]

theorem dropWhile_run (hrun : ∀ c ∈ run, p c = true) (hrest : ∀ c ∈ rest.head?, p c = false) :
    (run ++ rest).dropWhile p = rest := by
  rw [List.dropWhile_append_of_pos hrun]
  cases rest with
  | nil => rfl
  | cons c rest => exact List.dropWhile_cons_of_neg (by simp [hrest c rfl])

/-- Every text starts with a run, which may be empty. -/
theorem exists_run (p : Char → Bool) (s : List Char) :
    ∃ run rest, s = run ++ rest ∧ (∀ c ∈ run, p c = true) ∧ ∀ c ∈ rest.head?, p c = false :=
  ⟨s.takeWhile p, s.dropWhile p, List.takeWhile_append_dropWhile.symm,
    fun _ hc => List.mem_takeWhile_imp hc, head?_dropWhile p s⟩

end Runs

/-! ### Pieces -/

variable {sep : Char}

theorem split_of_notMem (h : sep ∉ s) : split sep s = [s] := by
  induction s with
  | nil => rfl
  | cons c s ih =>
    rw [List.mem_cons, not_or] at h
    rw [split, if_neg (Ne.symm h.1), ih h.2]

theorem split_append_cons (h : sep ∉ s) (rest : List Char) :
    split sep (s ++ sep :: rest) = s :: split sep rest := by
  induction s with
  | nil => rw [List.nil_append, split, if_pos rfl]
  | cons c s ih =>
    rw [List.mem_cons, not_or] at h
    rw [List.cons_append, split, if_neg (Ne.symm h.1), ih h.2]

/-- Joined pieces are cut apart again. -/
theorem split_intercalate {pieces : List (List Char)} (hne : pieces ≠ [])
    (h : ∀ p ∈ pieces, sep ∉ p) : split sep ([sep].intercalate pieces) = pieces := by
  induction pieces with
  | nil => exact absurd rfl hne
  | cons p pieces ih =>
    cases pieces with
    | nil =>
      rw [List.intercalate_singleton]
      exact split_of_notMem (h p List.mem_cons_self)
    | cons q pieces =>
      rw [List.intercalate_cons_cons, List.append_assoc, List.singleton_append,
        split_append_cons (h p List.mem_cons_self),
        ih (List.cons_ne_nil q pieces) fun r hr => h r (List.mem_cons_of_mem p hr)]

/-- Each piece of a text is made of characters of the text other than the separator. -/
theorem mem_of_mem_split {p : List Char} (hp : p ∈ split sep s) {c : Char} (hc : c ∈ p) :
    c ∈ s ∧ c ≠ sep := by
  induction s generalizing p with
  | nil =>
    rw [split, List.mem_singleton] at hp
    exact absurd (hp ▸ hc) List.not_mem_nil
  | cons d s ih =>
    by_cases hd : d = sep
    · rw [split, if_pos hd, List.mem_cons] at hp
      rcases hp with rfl | hp
      · exact absurd hc List.not_mem_nil
      · exact ⟨List.mem_cons_of_mem d (ih hp hc).1, (ih hp hc).2⟩
    · obtain ⟨q, pieces, hq⟩ := List.exists_cons_of_ne_nil (split_ne_nil sep s)
      rw [split, if_neg hd, hq] at hp
      rw [hq] at ih
      rcases List.mem_cons.1 hp with rfl | hp
      · rcases List.mem_cons.1 hc with rfl | hc
        · exact ⟨List.mem_cons_self, hd⟩
        · exact ⟨List.mem_cons_of_mem d (ih List.mem_cons_self hc).1, (ih List.mem_cons_self hc).2⟩
      · have h := ih (List.mem_cons_of_mem q hp) hc
        exact ⟨List.mem_cons_of_mem d h.1, h.2⟩

end DocMarkup.Text
