import Mathlib.Data.List.Count
import Mathlib.Data.List.Induction
import Mathlib.Data.Prod.Lex

/-!
# Lines and columns

A position in a text is the part in front of it. Its line is counted from one and its column is the
number of entries since the last separator. `lineStart` cuts the part in front where its line
starts, and `position_lt_append` says that the positions along a text grow in the order that
compares lines first.
-/

namespace TextPosition

open List

variable {α : Type*} [DecidableEq α] (sep : α)

/-- The line that goes on after the part. -/
def line (l : List α) : ℕ := 1 + l.count sep

/-- The number of entries since the last separator. -/
def column (l : List α) : ℕ := (l.reverse.takeWhile (· ≠ sep)).length

@[simp] theorem line_nil : line sep [] = 1 := rfl

@[simp] theorem column_nil : column sep [] = 0 := rfl

variable {sep} {l b : List α} {a : α}

theorem line_concat : line sep (l ++ [a]) = if a = sep then line sep l + 1 else line sep l := by
  rw [line, count_append, count_singleton]
  split_ifs with h h' h'
  · rfl
  · exact absurd (beq_iff_eq.mp h) h'
  · exact absurd (beq_iff_eq.mpr h') h
  · rfl

theorem column_concat :
    column sep (l ++ [a]) = if a = sep then 0 else column sep l + 1 := by
  rw [column, reverse_append, reverse_singleton, singleton_append, takeWhile_cons]
  split_ifs with h h' h'
  · simp [h'] at h
  · rfl
  · rfl
  · simp [h'] at h

theorem line_append_of_not_mem (h : sep ∉ b) : line sep (l ++ b) = line sep l := by
  rw [line, line, count_append, count_eq_zero_of_not_mem h, Nat.add_zero]

theorem column_append_of_not_mem (h : sep ∉ b) :
    column sep (l ++ b) = column sep l + b.length := by
  induction b using reverseRecOn generalizing l with
  | nil => simp
  | append_singleton b a ih =>
    rw [mem_append, mem_singleton, not_or] at h
    rw [← append_assoc, column_concat, if_neg (Ne.symm h.2), ih h.1, length_append,
      length_singleton, Nat.add_assoc]

/-- The part in front of a position, cut where the line of the position starts. -/
theorem lineStart (sep : α) (l : List α) :
    ∃ front rest, l = front ++ rest ∧ (front = [] ∨ front.getLast? = some sep) ∧ sep ∉ rest ∧
      line sep front = line sep l ∧ rest.length = column sep l := by
  induction l using reverseRecOn with
  | nil => exact ⟨[], [], rfl, .inl rfl, not_mem_nil, rfl, rfl⟩
  | append_singleton l a ih =>
    by_cases ha : a = sep
    · subst ha
      refine ⟨l ++ [a], [], (append_nil _).symm, .inr (by simp), not_mem_nil, rfl, ?_⟩
      rw [column_concat, if_pos rfl]
      rfl
    · obtain ⟨front, rest, rfl, hfront, hrest, hline, hcolumn⟩ := ih
      refine ⟨front, rest ++ [a], (append_assoc _ _ _), hfront, ?_, ?_, ?_⟩
      · rw [mem_append, mem_singleton, not_or]
        exact ⟨hrest, Ne.symm ha⟩
      · rw [line_concat, if_neg ha, hline]
      · rw [column_concat, if_neg ha, length_append, length_singleton, hcolumn]

/-- Line first, then column. -/
theorem position_lt_concat (l : List α) (a : α) :
    toLex (line sep l, column sep l) < toLex (line sep (l ++ [a]), column sep (l ++ [a])) := by
  rw [Prod.Lex.toLex_lt_toLex, line_concat, column_concat]
  split_ifs with h
  · exact .inl (Nat.lt_succ_self _)
  · exact .inr ⟨rfl, Nat.lt_succ_self _⟩

theorem position_lt_append (l : List α) (hb : b ≠ []) :
    toLex (line sep l, column sep l) < toLex (line sep (l ++ b), column sep (l ++ b)) := by
  induction b using reverseRecOn with
  | nil => exact absurd rfl hb
  | append_singleton b a ih =>
    rw [← append_assoc]
    by_cases hnil : b = []
    · subst hnil
      rw [append_nil]
      exact position_lt_concat l a
    · exact lt_trans (ih hnil) (position_lt_concat (l ++ b) a)

end TextPosition
