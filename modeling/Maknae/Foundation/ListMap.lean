import Mathlib.Data.List.Induction
import Mathlib.Data.String.Basic

/-!
# Lists without repeats, and maps of them

A list grown by `pushNew` takes every value once, where it first comes. A map of such lists takes
pairs of a key and a value by `addTo`.

The two laws are about whole folds. `mem_foldl_pushNew` and `exists_mem_foldl_addTo` say which
values end up where, and do not depend on the order of the input; `getElem?_foldl_addTo` says which
list stands at a key, and does.
-/

open List

variable {α κ : Type*}

section PushNew

variable [DecidableEq α]

/-- The list with the value at its end, unless it holds the value already. -/
def pushNew (l : List α) (a : α) : List α := if a ∈ l then l else l ++ [a]

variable {l : List α}

theorem mem_pushNew {a b} : b ∈ pushNew l a ↔ b ∈ l ∨ b = a := by
  unfold pushNew
  split_ifs with h
  · exact ⟨.inl, fun hb ↦ hb.elim id fun heq ↦ heq ▸ h⟩
  · simp

theorem nodup_pushNew (hl : l.Nodup) (a : α) : (pushNew l a).Nodup := by
  unfold pushNew
  split_ifs with h
  · exact hl
  · refine pairwise_append.mpr ⟨hl, pairwise_singleton _ a, fun b hb c hc heq ↦ h ?_⟩
    rwa [← mem_singleton.mp hc, ← heq]

theorem prefix_pushNew (l : List α) (a : α) : l <+: pushNew l a := by
  unfold pushNew
  split_ifs
  · exact prefix_rfl
  · exact prefix_append l [a]

theorem mem_foldl_pushNew {l' l : List α} {b} : b ∈ l'.foldl pushNew l ↔ b ∈ l ∨ b ∈ l' := by
  induction l' generalizing l with
  | nil => simp
  | cons a l' ih => rw [foldl_cons, ih, mem_pushNew, mem_cons, or_assoc]

theorem nodup_foldl_pushNew (hl : l.Nodup) (l' : List α) :
    (l'.foldl pushNew l).Nodup := by
  induction l' generalizing l with
  | nil => exact hl
  | cons a l' ih => exact ih (nodup_pushNew hl a)

theorem prefix_foldl_pushNew (l l' : List α) : l <+: l'.foldl pushNew l := by
  induction l' generalizing l with
  | nil => exact prefix_rfl
  | cons a l' ih => exact (prefix_pushNew l a).trans (ih _)

/-- Values that are all new are appended as they come. -/
theorem foldl_pushNew_of_nodup {l l' : List α} (h : (l ++ l').Nodup) :
    l'.foldl pushNew l = l ++ l' := by
  induction l' generalizing l with
  | nil => simp
  | cons a l' ih =>
    have ha : a ∉ l := fun hmem ↦
      (nodup_append.mp h).2.2 a hmem a mem_cons_self rfl
    rw [foldl_cons, pushNew, if_neg ha, ih (by simpa using h)]
    simp

/-- The values of a list, each where it first comes. -/
def firsts (l : List α) : List α := l.foldl pushNew []

theorem firsts_of_nodup (h : l.Nodup) : firsts l = l :=
  foldl_pushNew_of_nodup (l := []) h

theorem nodup_firsts (l : List α) : (firsts l).Nodup := nodup_foldl_pushNew nodup_nil l

@[simp] theorem mem_firsts {a} : a ∈ firsts l ↔ a ∈ l := by
  simp [firsts, mem_foldl_pushNew]

theorem firsts_concat (l : List α) (a : α) : firsts (l ++ [a]) = pushNew (firsts l) a := by
  rw [firsts, foldl_append]
  rfl

/-- Of a second part only the new values count. -/
theorem firsts_append (l l' : List α) :
    firsts (l ++ l') = firsts l ++ (firsts l').filter fun a ↦ a ∉ l := by
  induction l' using reverseRecOn with
  | nil => simp [firsts]
  | append_singleton l' a ih =>
    rw [← append_assoc, firsts_concat, ih, firsts_concat, pushNew, pushNew]
    by_cases hl : a ∈ l
    · simp [hl, apply_ite (filter _)]
    · by_cases hl' : a ∈ l'
      · simp [hl']
      · simp [hl, hl']

theorem firsts_filter (p : α → Bool) (l : List α) : firsts (l.filter p) = (firsts l).filter p := by
  induction l using reverseRecOn with
  | nil => rfl
  | append_singleton l a ih =>
    rw [firsts_concat, pushNew]
    by_cases hp : p a
    · by_cases ha : a ∈ l
      · simp [hp, ha, firsts_concat, ih, pushNew]
      · simp [hp, ha, firsts_concat, ih, pushNew]
    · by_cases ha : a ∈ l
      · simp [hp, ha, ih]
      · simp [hp, ha, ih]

/-- A second part of known values adds nothing. -/
theorem firsts_append_of_subset {l l' : List α} (h : l' ⊆ l) : firsts (l ++ l') = firsts l := by
  have hnone : ((firsts l').filter fun a ↦ a ∉ l) = [] :=
    filter_eq_nil_iff.mpr fun a ha ↦ by simpa using h (mem_firsts.mp ha)
  rw [firsts_append, hnone, append_nil]

/-- A first part adds nothing to what starts with its values. -/
theorem firsts_append_of_eq_append {l l' rest : List α} (h : firsts l' = firsts l ++ rest) :
    firsts (l ++ l') = firsts l' := by
  have hnodup := nodup_firsts l'
  rw [h] at hnodup
  have hold : ((firsts l).filter fun a ↦ a ∉ l) = [] :=
    filter_eq_nil_iff.mpr fun a ha ↦ by simpa using ha
  have hnew : (rest.filter fun a ↦ a ∉ l) = rest := filter_eq_self.mpr fun a ha ↦ by
    simpa using fun hmem ↦ (nodup_append.mp hnodup).2.2 a (mem_firsts.mpr hmem) a ha rfl
  rw [firsts_append, h, filter_append, hold, hnew, nil_append]

/-- The values of a first part come first. -/
theorem exists_firsts_append (l l' : List α) : ∃ rest, firsts (l ++ l') = firsts l ++ rest := by
  obtain ⟨rest, hrest⟩ := prefix_foldl_pushNew (firsts l) l'
  exact ⟨rest, by rw [firsts, foldl_append, hrest, firsts]⟩

end PushNew

section ValuesAt

variable [DecidableEq κ]

/-- The values that go to a key. -/
def valuesAt (pairs : List (κ × α)) (k : κ) : List α :=
  (pairs.filter fun p ↦ p.1 = k).map Prod.snd

theorem mem_valuesAt {pairs : List (κ × α)} {k} {a} :
    a ∈ valuesAt pairs k ↔ (k, a) ∈ pairs := by
  simp [valuesAt]

@[simp] theorem valuesAt_append (p q : List (κ × α)) (k : κ) :
    valuesAt (p ++ q) k = valuesAt p k ++ valuesAt q k := by
  simp [valuesAt]

theorem valuesAt_filter (pairs : List (κ × α)) (p : κ × α → Bool) (k : κ) :
    valuesAt (pairs.filter p) k = (valuesAt pairs k).filter fun a ↦ p (k, a) := by
  rw [valuesAt, valuesAt, filter_map, filter_filter, filter_filter]
  congr 1
  refine filter_congr fun q _ ↦ ?_
  by_cases hk : q.1 = k
  · subst hk
    simp [Bool.and_comm]
  · simp [hk]

end ValuesAt

section AddTo

variable [Ord κ] [Std.TransOrd κ] [Std.LawfulEqOrd κ] [DecidableEq κ] [DecidableEq α]

/-- Push the value of a pair to the list at its key. -/
def addTo (m : Std.ExtTreeMap κ (List α) compare) (p : κ × α) :
    Std.ExtTreeMap κ (List α) compare :=
  m.insert p.1 (pushNew (m[p.1]?.getD []) p.2)

theorem getElem?_addTo (m : Std.ExtTreeMap κ (List α) compare) (p : κ × α) (k : κ) :
    (addTo m p)[k]? = if p.1 = k then some (pushNew (m[k]?.getD []) p.2) else m[k]? := by
  unfold addTo
  rw [Std.ExtTreeMap.getElem?_insert]
  by_cases hk : p.1 = k
  · subst hk
    simp
  · simp [hk]

/-- **The list at a key** after a fold: the old list and the values for the key, each once. -/
theorem getElem?_foldl_addTo (pairs : List (κ × α)) (m : Std.ExtTreeMap κ (List α) compare)
    (k : κ) :
    (pairs.foldl addTo m)[k]? =
      if valuesAt pairs k = [] then m[k]?
      else some ((valuesAt pairs k).foldl pushNew (m[k]?.getD [])) := by
  induction pairs generalizing m with
  | nil => rfl
  | cons p pairs ih =>
    rw [foldl_cons, ih, getElem?_addTo]
    by_cases hk : p.1 = k
    · have hcons : valuesAt (p :: pairs) k = p.2 :: valuesAt pairs k := by simp [valuesAt, hk]
      rw [hcons, if_neg (cons_ne_nil _ _), foldl_cons]
      split_ifs with hnil
      · rw [hnil, foldl_nil]
      · rfl
    · have hcons : valuesAt (p :: pairs) k = valuesAt pairs k := by simp [valuesAt, hk]
      rw [hcons, if_neg hk]

variable {k : κ} {m : Std.ExtTreeMap κ (List α) compare} {pairs : List (κ × α)}

theorem getD_foldl_addTo (h : m[k]?.getD [] = []) :
    (pairs.foldl addTo m)[k]?.getD [] = firsts (valuesAt pairs k) := by
  rw [getElem?_foldl_addTo]
  split_ifs with hnil
  · rw [h, hnil]
    rfl
  · rw [h, Option.getD_some, firsts]

/-- Which values stand at a key after a fold. -/
theorem exists_mem_foldl_addTo {a} :
    (∃ l, (pairs.foldl addTo m)[k]? = some l ∧ a ∈ l) ↔
      (∃ l, m[k]? = some l ∧ a ∈ l) ∨ (k, a) ∈ pairs := by
  rw [getElem?_foldl_addTo, ← mem_valuesAt]
  split_ifs with hnil
  · simp [hnil]
  · cases hk : m[k]? with
    | none | some l => simp [mem_foldl_pushNew]

end AddTo
