import Maknae.Foundation.Text

/-!
# Searching the pieces of a list from the back

A list is cut at a separator. `offer` hands the pieces to a predicate one after the other until it
accepts one; the predicate may keep a state, so that what it was offered, and in which order, is
part of the result.

A reader that goes through the list from the back sees a suffix first. `splitOn_append` is what lets
it work on one part at a time: of a suffix only the first piece can still grow, and the pieces after
it are final.
-/

universe u v

namespace LineScan

open List

variable {α : Type u} {τ : Type v}

/-! ### Offering -/

/-- Offer the entries in order until one is accepted. -/
def offer (find : τ → α → Bool × τ) : τ → List α → Option α × τ
  | st, [] => (none, st)
  | st, a :: l =>
    match find st a with
    | (true, st) => (some a, st)
    | (false, st) => offer find st l

variable {find : τ → α → Bool × τ} {st st' : τ} {l l' : List α} {a : α}

theorem offer_cons_of_accepted (h : find st a = (true, st')) :
    offer find st (a :: l) = (some a, st') := by
  rw [offer, h]

theorem offer_cons_of_rejected (h : find st a = (false, st')) :
    offer find st (a :: l) = offer find st' l := by
  rw [offer, h]

theorem offer_append_of_accepted (h : offer find st l = (some a, st')) :
    offer find st (l ++ l') = (some a, st') := by
  induction l generalizing st with
  | nil => cases h
  | cons b l ih =>
    rw [cons_append]
    rcases hfind : find st b with ⟨accepted, next⟩
    cases accepted with
    | true =>
      rw [offer_cons_of_accepted hfind] at h ⊢
      exact h
    | false =>
      rw [offer_cons_of_rejected hfind] at h ⊢
      exact ih h

theorem offer_append_of_rejected (h : offer find st l = (none, st')) :
    offer find st (l ++ l') = offer find st' l' := by
  induction l generalizing st with
  | nil =>
    obtain rfl : st = st' := (Prod.mk.inj h).2
    rfl
  | cons b l ih =>
    rw [cons_append]
    rcases hfind : find st b with ⟨accepted, next⟩
    cases accepted with
    | true =>
      rw [offer_cons_of_accepted hfind] at h
      cases h
    | false =>
      rw [offer_cons_of_rejected hfind] at h ⊢
      exact ih h

/-! ### Pieces -/

variable [DecidableEq α] {sep : α}

/-- The first piece of a list. -/
def firstPiece (sep : α) (l : List α) : List α := (l.splitOn sep).headD []

/-- The pieces after the first. -/
def laterPieces (sep : α) (l : List α) : List (List α) := (l.splitOn sep).tail

theorem splitOn_eq_cons (sep : α) (l : List α) :
    l.splitOn sep = firstPiece sep l :: laterPieces sep l := by
  obtain ⟨first, rest, h⟩ := exists_cons_of_ne_nil (splitOnP_ne_nil (· == sep) l)
  have h : l.splitOn sep = first :: rest := h
  rw [firstPiece, laterPieces, h]
  rfl

theorem not_mem_firstPiece (sep : α) (l : List α) : sep ∉ firstPiece sep l := by
  refine Text.not_mem_of_mem_splitOn (l := l) ?_
  rw [splitOn_eq_cons sep l]
  exact mem_cons_self

theorem splitOn_of_not_mem (h : sep ∉ l) : l.splitOn sep = [l] :=
  splitOnP_eq_singleton fun x hx ↦ by
    rw [beq_eq_false_iff_ne]
    rintro rfl
    exact h hx

theorem splitOn_cons_self (sep : α) (l : List α) :
    (sep :: l).splitOn sep = [] :: l.splitOn sep := by
  rw [splitOn, splitOnP_cons_eq_if_modifyHead, if_pos (beq_self_eq_true sep)]
  rfl

theorem splitOn_cons_of_ne (h : a ≠ sep) (l : List α) :
    (a :: l).splitOn sep = (a :: firstPiece sep l) :: laterPieces sep l := by
  rw [splitOn, splitOnP_cons_eq_if_modifyHead, if_neg (by simpa using h)]
  show (l.splitOn sep).modifyHead _ = _
  rw [splitOn_eq_cons sep l, modifyHead_cons]

/-- A part in front changes the first piece only. -/
theorem splitOn_append (sep : α) (front l : List α) :
    (front ++ l).splitOn sep = (front ++ firstPiece sep l).splitOn sep ++ laterPieces sep l := by
  induction front with
  | nil =>
    rw [nil_append, nil_append, splitOn_of_not_mem (not_mem_firstPiece sep l),
      splitOn_eq_cons sep l]
    rfl
  | cons a front ih =>
    rw [cons_append, cons_append]
    by_cases h : a = sep
    · subst h
      rw [splitOn_cons_self, splitOn_cons_self, ih]
      rfl
    · have hsplit := ih
      rw [splitOn_eq_cons sep (front ++ l),
        splitOn_eq_cons sep (front ++ firstPiece sep l)] at hsplit
      obtain ⟨hfirst, hlater⟩ := cons.inj hsplit
      rw [splitOn_cons_of_ne h, splitOn_cons_of_ne h, hfirst, hlater]
      rfl

/-! ### The last separator -/

/-- The position of the last separator. -/
def lastIdxOf? (sep : α) : List α → Option ℕ
  | [] => none
  | a :: l =>
    match lastIdxOf? sep l with
    | some i => some (i + 1)
    | none => if a = sep then some 0 else none

theorem not_mem_of_lastIdxOf?_eq_none (h : lastIdxOf? sep l = none) : sep ∉ l := by
  induction l with
  | nil => exact not_mem_nil
  | cons a l ih =>
    unfold lastIdxOf? at h
    split at h
    · cases h
    · next hrest =>
      split_ifs at h with ha
      rw [mem_cons, not_or]
      exact ⟨fun heq ↦ ha heq.symm, ih hrest⟩

/-- The last separator stands between what is in front of it and a list without separators. -/
theorem eq_of_lastIdxOf? {i} (h : lastIdxOf? sep l = some i) :
    i < l.length ∧ l = l.take i ++ sep :: l.drop (i + 1) ∧ sep ∉ l.drop (i + 1) := by
  induction l generalizing i with
  | nil => cases h
  | cons a l ih =>
    unfold lastIdxOf? at h
    split at h
    · next j hj =>
      cases h
      obtain ⟨hlt, hl, hrest⟩ := ih hj
      exact ⟨Nat.succ_lt_succ hlt, congrArg (a :: ·) hl, hrest⟩
    · next hrest =>
      split_ifs at h with ha
      cases h
      exact ⟨Nat.succ_pos _, congrArg (· :: l) ha, not_mem_of_lastIdxOf?_eq_none hrest⟩

/-- The pieces of a list with a separator are those in front of its last one, and what follows it.
-/
theorem splitOn_of_lastIdxOf? {i} (h : lastIdxOf? sep l = some i) :
    l.splitOn sep = (l.take i).splitOn sep ++ [l.drop (i + 1)] := by
  obtain ⟨-, hl, hrest⟩ := eq_of_lastIdxOf? h
  have hpieces : (sep :: l.drop (i + 1)).splitOn sep = [[], l.drop (i + 1)] := by
    rw [splitOn_cons_self, splitOn_of_not_mem hrest]
  conv_lhs => rw [hl]
  rw [splitOn_append, firstPiece, laterPieces, hpieces, headD_cons, append_nil, tail_cons]

end LineScan
