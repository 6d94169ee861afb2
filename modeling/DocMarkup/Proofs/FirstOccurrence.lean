/-!
# Lists without their repetitions

What is left of a list when only the first occurrence of each member stays. Labels of footnotes
get their numbers in this order, and a cache keeps its keys in this order, the latest use first.

## Main results

* `nodup_eraseDups` : nothing is left twice.
* `eraseDups_concat`, `eraseDups_append_of_nodup`, `eraseDups_append_of_subset` : lists one after
  the other.
* `eraseDups_cons_eq`, `eraseDups_filter` : a member in front, and some members left out.
* `eraseDups_map` : members renamed one to one.
-/

namespace DocMarkup

variable {α : Type} [DecidableEq α] {as bs : List α}

theorem eraseDups_of_nodup (h : as.Nodup) : as.eraseDups = as := by
  induction as with
  | nil => rfl
  | cons a as ih =>
    obtain ⟨ha, has⟩ := List.nodup_cons.1 h
    have hkeep : (as.filter fun b => !b == a) = as :=
      List.filter_eq_self.2 fun b hb => by
        have hne : b ≠ a := fun e => ha (e ▸ hb)
        simpa using hne
    rw [List.eraseDups_cons, hkeep, ih has]

theorem eraseDups_concat (as : List α) (a : α) :
    (as ++ [a]).eraseDups = if a ∈ as then as.eraseDups else as.eraseDups ++ [a] := by
  rw [List.eraseDups_append, List.cons_removeAll]
  by_cases h : a ∈ as
  · simp [h]
  · simp [h, List.eraseDups_cons]

theorem nodup_eraseDups (as : List α) : as.eraseDups.Nodup := by
  -- from the end, since what is kept depends on what stands before
  rw [← List.reverse_reverse as]
  induction as.reverse with
  | nil => exact List.nodup_nil
  | cons a as ih =>
    rw [List.reverse_cons, eraseDups_concat]
    split
    · exact ih
    · rename_i ha
      refine List.nodup_append.2 ⟨ih, by simp, fun x hx y hy he => ha ?_⟩
      rw [← List.mem_singleton.1 hy, ← he]
      exact List.mem_eraseDups.1 hx

theorem eraseDups_append_eraseDups (as bs : List α) :
    (as.eraseDups ++ bs).eraseDups = (as ++ bs).eraseDups := by
  rw [List.eraseDups_append, List.eraseDups_append, eraseDups_of_nodup (nodup_eraseDups as)]
  simp [List.removeAll]

/-- After a list without repetitions comes what it does not have. -/
theorem eraseDups_append_of_nodup (h : as.Nodup) (bs : List α) :
    (as ++ bs).eraseDups = as ++ (bs.removeAll as).eraseDups := by
  rw [List.eraseDups_append, eraseDups_of_nodup h]

theorem eraseDups_append_of_subset (h : ∀ b ∈ bs, b ∈ as) :
    (as ++ bs).eraseDups = as.eraseDups := by
  have hnone : bs.removeAll as = [] := by
    simpa [List.removeAll, List.filter_eq_nil_iff] using h
  rw [List.eraseDups_append, hnone, List.eraseDups_nil, List.append_nil]

theorem idxOf?_eq_some_idxOf {a : α} (h : a ∈ as) : as.idxOf? a = some (as.idxOf a) := by
  induction as with
  | nil => cases h
  | cons b as ih =>
    rw [List.idxOf?_cons, List.idxOf_cons]
    by_cases hb : b = a
    · simp [hb]
    · have ha : a ∈ as := (List.mem_cons.1 h).resolve_left fun he => hb he.symm
      simp [hb, ih ha, cond_eq_ite]

/-- Leaving members out and leaving repetitions out can be done in either order. -/
theorem eraseDups_filter (p : α → Bool) (as : List α) :
    (as.filter p).eraseDups = as.eraseDups.filter p := by
  -- from the end, since what is kept depends on what stands before
  rw [← List.reverse_reverse as]
  induction as.reverse with
  | nil => rfl
  | cons a as ih =>
    rw [List.reverse_cons, List.filter_append, eraseDups_concat]
    by_cases hp : p a = true
    · rw [List.filter_cons_of_pos hp, List.filter_nil, eraseDups_concat, ih]
      by_cases ha : a ∈ as.reverse
      · rw [if_pos ha, if_pos (List.mem_filter.2 ⟨ha, hp⟩)]
      · rw [if_neg ha, if_neg fun h => ha (List.mem_filter.1 h).1, List.filter_append,
          List.filter_cons_of_pos hp, List.filter_nil]
    · rw [List.filter_cons_of_neg hp, List.filter_nil, List.append_nil, ih]
      split
      · rfl
      · rw [List.filter_append, List.filter_cons_of_neg hp, List.filter_nil, List.append_nil]

/-- Members that stay different when they are renamed are repeated where they were before. -/
theorem eraseDups_map {β : Type} [DecidableEq β] {f : α → β}
    (hf : ∀ a ∈ as, ∀ b ∈ as, f a = f b → a = b) : (as.map f).eraseDups = as.eraseDups.map f := by
  -- from the end, since what is kept depends on what stands before
  rw [← List.reverse_reverse as] at hf ⊢
  generalize as.reverse = rs at hf ⊢
  induction rs with
  | nil => rfl
  | cons a as ih =>
    rw [List.reverse_cons] at hf ⊢
    have hmem : f a ∈ as.reverse.map f ↔ a ∈ as.reverse := by
      refine ⟨fun h => ?_, List.mem_map_of_mem⟩
      obtain ⟨b, hb, he⟩ := List.mem_map.1 h
      rwa [hf a (by simp) b (List.mem_append_left _ hb) he.symm]
    rw [List.map_append, List.map_singleton, eraseDups_concat, eraseDups_concat,
      ih fun b hb c hc => hf b (List.mem_append_left _ hb) c (List.mem_append_left _ hc)]
    by_cases ha : a ∈ as.reverse
    · rw [if_pos ha, if_pos (hmem.2 ha)]
    · rw [if_neg ha, if_neg (mt hmem.1 ha), List.map_append, List.map_singleton]

/-- A member in front stays there and is left out behind. -/
theorem eraseDups_cons_eq (a : α) (as : List α) :
    (a :: as).eraseDups = a :: as.eraseDups.filter (· ≠ a) := by
  rw [List.eraseDups_cons, ← eraseDups_filter]
  congr 3
  funext b
  exact (decide_not).symm

end DocMarkup
