/-
# `Libjapi.Lines` — a list cut at a separator

`splitLines sep s` is the list of the complete lines of `s` (what stands
before each separator, the separator left out) and the unfinished rest after
the last separator.  Everything is over an arbitrary type with decidable
equality.  The two equations that drive every induction are
`splitLines_cons_line` (a line, its separator, the rest) and
`splitLines_of_not_mem` (no separator at all); `line_cases` says that one of
the two shapes always applies.
-/
import Mathlib.Data.List.Basic

namespace Libjapi

section Lines

variable {α : Type*} [DecidableEq α]

/-- The complete lines of a list, and what follows its last separator. -/
def splitLines (sep : α) : List α → List (List α) × List α
  | [] => ([], [])
  | a :: s =>
      if a = sep then ([] :: (splitLines sep s).1, (splitLines sep s).2)
      else
        match splitLines sep s with
        | ([], t) => ([], a :: t)
        | (l :: ls, t) => ((a :: l) :: ls, t)

/-- The complete lines. -/
def lines (sep : α) (s : List α) : List (List α) := (splitLines sep s).1

/-- The unfinished rest. -/
def unfinished (sep : α) (s : List α) : List α := (splitLines sep s).2

variable {sep : α}

theorem splitLines_cons_line {l : List α} (hl : sep ∉ l) (s : List α) :
    splitLines sep (l ++ sep :: s) = (l :: lines sep s, unfinished sep s) := by
  induction l with
  | nil => simp [splitLines, lines, unfinished]
  | cons a l ih =>
      have ha : a ≠ sep := fun h => hl (by simp [h])
      have hl' : sep ∉ l := fun h => hl (by simp [h])
      simp [splitLines, ha, ih hl']

theorem splitLines_of_not_mem {t : List α} (ht : sep ∉ t) : splitLines sep t = ([], t) := by
  induction t with
  | nil => rfl
  | cons a t ih =>
      have ha : a ≠ sep := fun h => ht (by simp [h])
      have ht' : sep ∉ t := fun h => ht (by simp [h])
      simp [splitLines, ha, ih ht']

theorem lines_cons_line {l : List α} (hl : sep ∉ l) (s : List α) :
    lines sep (l ++ sep :: s) = l :: lines sep s := by
  simp only [lines, splitLines_cons_line hl]

theorem unfinished_cons_line {l : List α} (hl : sep ∉ l) (s : List α) :
    unfinished sep (l ++ sep :: s) = unfinished sep s := by
  simp only [unfinished, splitLines_cons_line hl]

theorem lines_of_not_mem {t : List α} (ht : sep ∉ t) : lines sep t = [] := by
  simp only [lines, splitLines_of_not_mem ht]

theorem unfinished_of_not_mem {t : List α} (ht : sep ∉ t) : unfinished sep t = t := by
  simp only [unfinished, splitLines_of_not_mem ht]

/-- A list has no separator, or it is a line, its separator and a rest. -/
theorem line_cases (sep : α) (s : List α) :
    sep ∉ s ∨ ∃ l s', s = l ++ sep :: s' ∧ sep ∉ l := by
  by_cases h : sep ∈ s
  · exact .inr (List.eq_append_cons_of_mem h)
  · exact .inl h

omit [DecidableEq α] in
theorem line_unique {l l' s s' : List α} (hl : sep ∉ l) (hl' : sep ∉ l')
    (h : l ++ sep :: s = l' ++ sep :: s') : l = l' ∧ s = s' := by
  induction l generalizing l' with
  | nil =>
      cases l' with
      | nil => exact ⟨rfl, (List.cons.inj h).2⟩
      | cons a l' => exact absurd (List.cons.inj h).1 fun ha => hl' (by simp [ha])
  | cons a l ih =>
      cases l' with
      | nil => exact absurd (List.cons.inj h).1 fun ha => hl (by simp [ha])
      | cons a' l' =>
          obtain ⟨rfl, htl⟩ := List.cons.inj h
          obtain ⟨rfl, rfl⟩ := ih (fun h => hl (by simp [h])) (fun h => hl' (by simp [h])) htl
          exact ⟨rfl, rfl⟩

variable (sep) in
/-- Induction along the lines of a list. -/
theorem lines_induction {P : List α → Prop}
    (hrest : ∀ t, sep ∉ t → P t)
    (hline : ∀ l s, sep ∉ l → P s → P (l ++ sep :: s)) (s : List α) : P s := by
  induction hn : s.length using Nat.strongRecOn generalizing s with
  | ind n ih =>
      rcases line_cases sep s with h | ⟨l, s', rfl, hl⟩
      · exact hrest s h
      · refine hline l s' hl (ih s'.length ?_ s' rfl)
        subst hn
        simp only [List.length_append, List.length_cons]
        omega

variable (sep) in
theorem join_lines (s : List α) :
    ((lines sep s).map (· ++ [sep])).flatten ++ unfinished sep s = s := by
  induction s using lines_induction sep with
  | hrest t ht => simp [lines_of_not_mem ht, unfinished_of_not_mem ht]
  | hline l s hl ih =>
      simp only [lines_cons_line hl, unfinished_cons_line hl, List.map_cons, List.flatten_cons,
        List.append_assoc, List.cons_append, ih, List.nil_append]

theorem splitLines_join {ls : List (List α)} (h : ∀ l ∈ ls, sep ∉ l) {t : List α} (ht : sep ∉ t) :
    splitLines sep ((ls.map (· ++ [sep])).flatten ++ t) = (ls, t) := by
  induction ls with
  | nil => exact splitLines_of_not_mem ht
  | cons l ls ih =>
      have hl := h l (by simp)
      have hrest := ih fun l' hl' => h l' (by simp [hl'])
      rw [List.map_cons, List.flatten_cons, List.append_assoc, List.append_assoc,
        List.singleton_append, splitLines_cons_line hl, lines, unfinished, hrest]

theorem lines_join {ls : List (List α)} (h : ∀ l ∈ ls, sep ∉ l) :
    lines sep ((ls.map (· ++ [sep])).flatten) = ls := by
  have hsplit := splitLines_join h (List.not_mem_nil (a := sep))
  rw [List.append_nil] at hsplit
  rw [lines, hsplit]

theorem lines_of_prefix {s s' : List α} (h : s <+: s') : lines sep s <+: lines sep s' := by
  induction s using lines_induction sep generalizing s' with
  | hrest t ht => simp [lines_of_not_mem ht]
  | hline l s hl ih =>
      obtain ⟨t, rfl⟩ := h
      rw [List.append_assoc, List.cons_append, lines_cons_line hl, lines_cons_line hl,
        List.prefix_cons_inj]
      exact ih (List.prefix_append s t)

theorem not_mem_unfinished (s : List α) : sep ∉ unfinished sep s := by
  induction s using lines_induction sep with
  | hrest t ht => rwa [unfinished_of_not_mem ht]
  | hline l s hl ih => rwa [unfinished_cons_line hl]

theorem not_mem_of_mem_lines {s l : List α} (h : l ∈ lines sep s) : sep ∉ l := by
  induction s using lines_induction sep with
  | hrest t ht => simp [lines_of_not_mem ht] at h
  | hline l' s hl ih =>
      rw [lines_cons_line hl, List.mem_cons] at h
      rcases h with rfl | h
      · exact hl
      · exact ih h

end Lines

end Libjapi
