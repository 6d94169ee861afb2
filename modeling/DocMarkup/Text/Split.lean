/-!
# Cutting a text at a character

## Main definitions

* `Text.split` : the pieces between all occurrences of a character.
* `Text.cut?` : the pieces before and after its first occurrence.
-/

namespace DocMarkup.Text

/-- The pieces of a text between the occurrences of `sep`; always one more than there are
occurrences. -/
def split (sep : Char) : List Char → List (List Char)
  | [] => [[]]
  | c :: rest =>
    if c = sep then [] :: split sep rest
    else match split sep rest with
      | [] => [[c]]
      | piece :: pieces => (c :: piece) :: pieces

/-- The text before the first `sep` and the text after it. -/
def cut? (sep : Char) : List Char → Option (List Char × List Char)
  | [] => none
  | c :: rest =>
    if c = sep then some ([], rest)
    else (cut? sep rest).map fun p => (c :: p.1, p.2)

theorem split_ne_nil (sep : Char) (s : List Char) : split sep s ≠ [] := by
  induction s with
  | nil => simp [split]
  | cons c rest ih =>
    by_cases h : c = sep
    · simp [split, h]
    · simp only [split, if_neg h]
      split <;> simp

theorem cut?_eq_none_iff {sep : Char} {s : List Char} : cut? sep s = none ↔ sep ∉ s := by
  induction s with
  | nil => simp [cut?]
  | cons c rest ih =>
    by_cases h : c = sep
    · simp [cut?, h]
    · have h' : ¬ sep = c := fun e => h e.symm
      simp [cut?, h, h', ih]

/-- A cut loses only the separator, and it is the first one. -/
theorem cut?_eq_some_iff {sep : Char} {s a b : List Char} :
    cut? sep s = some (a, b) ↔ s = a ++ sep :: b ∧ sep ∉ a := by
  induction s generalizing a with
  | nil => simp [cut?]
  | cons c rest ih =>
    by_cases h : c = sep
    · subst h
      cases a with
      | nil => simp [cut?, eq_comm]
      | cons d a => simp [cut?]; intro hd; simp [hd]
    · cases a with
      | nil => simp [cut?, h]
      | cons d a =>
        simp only [cut?, if_neg h, Option.map_eq_some_iff, Prod.mk.injEq, Prod.exists,
          List.cons.injEq, List.cons_append, List.mem_cons, not_or]
        constructor
        · rintro ⟨x, y, hxy, ⟨rfl, rfl⟩, rfl⟩
          obtain ⟨h1, h2⟩ := ih.1 hxy
          exact ⟨⟨rfl, h1⟩, fun e => h e.symm, h2⟩
        · rintro ⟨⟨rfl, h1⟩, h2, h3⟩
          exact ⟨a, b, ih.2 ⟨h1, h3⟩, ⟨rfl, rfl⟩, rfl⟩

end DocMarkup.Text
