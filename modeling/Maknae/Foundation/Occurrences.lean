import Mathlib.Algebra.Ring.Nat
import Mathlib.Data.List.Infix
import Mathlib.Tactic.Common

/-!
# Where a pattern occurs in a text

A text is put together from pieces, some of them chosen by someone else. How often a pattern occurs
in it (`occurrences`), and where it occurs first (`List.dropInfix?`), can be told from the pieces
when no occurrence reaches over the end of one. A piece is **closed** to a pattern when it ends in a
symbol that the pattern can have in its last place only: an occurrence that starts in the piece then
ends in it (`prefix_append_iff_of_closed`).

Behind a text of any kind, a pattern is found at once when its first symbol is nowhere else in it:
an occurrence that starts earlier would have that symbol inside (`dropInfix?_append_cons`).
-/

open List

section Closed

variable {α : Type*} {pat p q : List α}

/-- The piece ends in a symbol that the pattern has in its last place at most. -/
def ClosedTo (pat p : List α) : Prop := ∃ q c, p = q ++ [c] ∧ c ∉ pat.dropLast

theorem ClosedTo.of_append (h : ClosedTo pat (p ++ q)) (hq : q ≠ []) : ClosedTo pat q := by
  obtain ⟨l, c, heq, hc⟩ := h
  obtain ⟨q', c', rfl⟩ := (eq_nil_or_concat' q).resolve_left hq
  rw [← append_assoc] at heq
  obtain ⟨-, hlast⟩ := append_inj' heq rfl
  obtain rfl := singleton_inj.mp hlast
  exact ⟨q', c', rfl, hc⟩

theorem prefix_append_cons_iff {c} (hc : c ∉ pat.dropLast) (q r : List α) :
    pat <+: q ++ c :: r ↔ pat <+: q ++ [c] := by
  induction q generalizing pat with
  | nil =>
    rcases pat with - | ⟨x, - | ⟨y, pat⟩⟩
    · simp
    · simp [cons_prefix_cons]
    · rw [dropLast_cons_cons, mem_cons, not_or] at hc
      simp [Ne.symm hc.1]
  | cons b q ih =>
    rcases pat with - | ⟨x, pat⟩
    · simp
    · have hpat : c ∉ pat.dropLast := fun hmem ↦ hc (by
        rcases pat with - | ⟨y, pat⟩
        · cases hmem
        · rw [dropLast_cons_cons]
          exact mem_cons_of_mem x hmem)
      rw [cons_append, cons_append, cons_prefix_cons, cons_prefix_cons, ih hpat]

/-- An occurrence that starts in a closed piece ends in it. -/
theorem prefix_append_iff_of_closed (h : ClosedTo pat p) (r : List α) :
    pat <+: p ++ r ↔ pat <+: p := by
  obtain ⟨q, c, rfl, hc⟩ := h
  rw [append_assoc]
  exact prefix_append_cons_iff hc q r

end Closed

/-! ### How often -/

variable {α : Type*} [DecidableEq α] {pat p r : List α}

/-- How often the pattern occurs, overlaps included. -/
def occurrences (pat : List α) : List α → ℕ
  | [] => if pat = [] then 1 else 0
  | a :: l => (if pat <+: a :: l then 1 else 0) + occurrences pat l

theorem occurrences_eq_zero {l : List α} : occurrences pat l = 0 ↔ ¬pat <:+: l := by
  induction l with
  | nil =>
    rw [occurrences]
    split_ifs with h <;> simp [h]
  | cons a l ih =>
    rw [occurrences, Nat.add_eq_zero_iff, ih, infix_cons_iff, not_or]
    refine and_congr_left fun _ ↦ ?_
    split_ifs with h <;> simp [h]

theorem occurrences_append_of_closed (hpat : pat ≠ []) (h : ClosedTo pat p) (r : List α) :
    occurrences pat (p ++ r) = occurrences pat p + occurrences pat r := by
  induction p with
  | nil =>
    obtain ⟨q, c, heq, -⟩ := h
    exact absurd heq.symm (by simp)
  | cons a p ih =>
    have hbegins := prefix_append_iff_of_closed h r
    rw [cons_append] at hbegins ⊢
    rw [occurrences, occurrences]
    simp only [hbegins]
    cases p with
    | nil => simp [occurrences, hpat]
    | cons b p => rw [ih (ClosedTo.of_append (p := [a]) h (by simp)), Nat.add_assoc]

theorem occurrences_flatten_append (hpat : pat ≠ []) {pieces : List (List α)}
    (h : ∀ p ∈ pieces, ClosedTo pat p) (r : List α) :
    occurrences pat (pieces.flatten ++ r) =
      (pieces.map (occurrences pat)).sum + occurrences pat r := by
  induction pieces with
  | nil => simp
  | cons p pieces ih =>
    obtain ⟨hp, hpieces⟩ := forall_mem_cons.mp h
    rw [flatten_cons, append_assoc, occurrences_append_of_closed hpat hp, ih hpieces,
      map_cons, sum_cons, Nat.add_assoc]

/-- A symbol that is not in the pattern adds no occurrence. -/
theorem occurrences_concat {c} (hpat : pat ≠ []) (hc : c ∉ pat) (l : List α) :
    occurrences pat (l ++ [c]) = occurrences pat l := by
  have hlast : ∀ l : List α, pat <+: l ++ [c] ↔ pat <+: l := fun l ↦ by
    rw [prefix_concat_iff]
    exact or_iff_right fun heq ↦ hc (heq ▸ by simp)
  induction l with
  | nil =>
    have hnil : ¬pat <+: [c] := fun h ↦ hpat (prefix_nil.mp ((hlast []).mp h))
    simp [occurrences, hnil]
  | cons a l ih =>
    have hcons := hlast (a :: l)
    rw [cons_append] at hcons ⊢
    rw [occurrences, occurrences, ih]
    simp only [hcons]

/-! ### The first occurrence -/

/-- No occurrence starts before the end of `p`. -/
theorem dropInfix?_eq_some (h : ∀ p₁ p₂, p = p₁ ++ p₂ → p₂ ≠ [] → ¬pat <+: p₂ ++ (pat ++ r)) :
    (p ++ (pat ++ r)).dropInfix? pat = some (p, r) := by
  refine dropInfix?_eq_some_iff.mpr ⟨⟨pat, by rw [append_assoc], by simp⟩, ?_⟩
  intro p' i s heq hi
  obtain rfl : i = pat := by simpa using hi
  by_contra hlt
  have hbegins : p' <+: p := prefix_of_prefix_length_le
    (by rw [heq, append_assoc]; exact prefix_append _ _) (prefix_append _ _)
    (Nat.le_of_not_le hlt)
  obtain ⟨p₂, rfl⟩ := hbegins
  refine h p' p₂ rfl (fun hnil ↦ hlt (by simp [hnil])) ?_
  rw [append_assoc, append_assoc] at heq
  rw [append_cancel_left heq]
  exact prefix_append _ _

/-- Behind closed pieces without the pattern, it occurs first where it is written. -/
theorem dropInfix?_flatten_append {pieces : List (List α)} (h : ∀ p ∈ pieces, ClosedTo pat p)
    (hzero : ∀ p ∈ pieces, occurrences pat p = 0) (r : List α) :
    (pieces.flatten ++ (pat ++ r)).dropInfix? pat = some (pieces.flatten, r) := by
  have hnone : ∀ s p₁ p₂, pieces.flatten = p₁ ++ p₂ → p₂ ≠ [] → ¬pat <+: p₂ ++ s := by
    induction pieces with
    | nil =>
      intro s p₁ p₂ heq hne
      exact absurd (append_eq_nil_iff.mp heq.symm).2 hne
    | cons p pieces ih =>
      obtain ⟨hp, hpieces⟩ := forall_mem_cons.mp h
      obtain ⟨hpzero, hrest⟩ := forall_mem_cons.mp hzero
      intro s p₁ p₂ heq hne
      rw [flatten_cons, append_eq_append_iff] at heq
      obtain ⟨q, rfl, hq⟩ | ⟨q, rfl, rfl⟩ := heq
      · exact ih hpieces hrest s q p₂ hq hne
      · by_cases hnil : q = []
        · subst hnil
          exact ih hpieces hrest s [] _ rfl hne
        -- the occurrence would start in this piece, so it would be in it
        rw [append_assoc, prefix_append_iff_of_closed (hp.of_append hnil)]
        exact fun hbegins ↦ occurrences_eq_zero.mp hpzero
          (hbegins.isInfix.trans (suffix_append _ _).isInfix)
  exact dropInfix?_eq_some fun p₁ p₂ ↦ hnone _ p₁ p₂

/-- A pattern whose first symbol is nowhere else in it, behind a text without the pattern. -/
theorem dropInfix?_append_cons {x} {t l : List α} (hx : x ∉ t) (hzero : ¬x :: t <:+: l)
    (r : List α) : (l ++ (x :: t ++ r)).dropInfix? (x :: t) = some (l, r) := by
  refine dropInfix?_eq_some fun p₁ p₂ heq hne hbegins ↦ hzero ?_
  obtain ⟨a, p₂, rfl⟩ := exists_cons_of_ne_nil hne
  rw [cons_append, cons_append, cons_prefix_cons] at hbegins
  obtain ⟨rfl, hbegins⟩ := hbegins
  -- past the text stands the first symbol again
  have ht : t <+: p₂ := by
    rcases prefix_or_prefix_of_prefix hbegins (prefix_append p₂ _) with ht | ⟨t', rfl⟩
    · exact ht
    · rw [prefix_append_right_inj] at hbegins
      rcases t' with - | ⟨y, t'⟩
      · rw [append_nil]
      · rw [cons_prefix_cons] at hbegins
        exact absurd (hbegins.1 ▸ by simp) hx
  rw [heq]
  exact (cons_prefix_cons.mpr ⟨rfl, ht⟩).isInfix.trans (suffix_append _ _).isInfix
