import Mathlib.Algebra.Ring.Nat
import Mathlib.Algebra.Order.BigOperators.Group.List
import Mathlib.Data.List.Sort
import Mathlib.Data.String.Basic

/-!
# Lists kept in key order

Sorting by a key, finding adjacent duplicates, and searching a sorted list. Sorting is stable, so
the result is determined by the list and the key alone; where the keys differ pairwise it is
determined by the *set* of entries (`sortByKey_eq_of_perm`).

A map and its list of entries determine each other (`ofList_toList`).

Searching a list that is not in order has no specified answer. `binarySearchBy` answers with the
entry at the partition point, which is the only entry a search of an ordered list can find.
-/

open List

variable {α κ : Type*}

variable {a : α} {key : α → κ} {l : List α} {p : α → α → Bool} {i : ℕ} {cmp : α → Ordering}

/-- Where the keys differ pairwise, an entry is the only one of its key. -/
theorem filter_key_eq_singleton [DecidableEq κ] (h : l.Pairwise fun a b ↦ key a ≠ key b)
    (ha : a ∈ l) :
    (l.filter fun b ↦ key b == key a) = [a] := by
  induction l with
  | nil => cases ha
  | cons b l ih =>
    obtain ⟨hb, hl⟩ := pairwise_cons.mp h
    rcases mem_cons.mp ha with rfl | ha
    · have hrest : (l.filter fun b ↦ key b == key a) = [] :=
        filter_eq_nil_iff.mpr fun c hc ↦ by simpa using (hb c hc).symm
      rw [filter_cons_of_pos (by simp), hrest]
    · rw [filter_cons_of_neg (by simpa using hb a ha), ih hl ha]

theorem eq_of_key_eq [DecidableEq κ] (h : l.Pairwise fun a b ↦ key a ≠ key b) {a b} (ha : a ∈ l)
    (hb : b ∈ l) (hkey : key a = key b) : a = b := by
  have hmem : a ∈ l.filter fun c ↦ key c == key b :=
    mem_filter.mpr ⟨ha, beq_iff_eq.mpr hkey⟩
  rw [filter_key_eq_singleton h hb] at hmem
  exact mem_singleton.mp hmem

/-- Where the keys differ pairwise, a search for a key finds its entry. -/
theorem find?_key_eq_some [DecidableEq κ] (h : (l.map key).Nodup) (ha : a ∈ l) :
    (l.find? fun b ↦ key b = key a) = some a := by
  have hfilter : (l.filter fun b ↦ key b = key a) = [a] :=
    filter_key_eq_singleton (pairwise_map.mp h) ha
  rw [← head?_filter, hfilter]
  rfl

/-- What the entries of a key are made into. -/
theorem filter_filterMap_key [DecidableEq κ] {β : Type*} {f : α → Option β} {key' : β → κ}
    (h : ∀ a b, f a = some b → key' b = key a) (l : List α) (k : κ) :
    ((l.filterMap f).filter fun b ↦ key' b = k) = (l.filter fun a ↦ key a = k).filterMap f := by
  rw [filter_filterMap, filterMap_filter]
  refine filterMap_congr fun a _ ↦ ?_
  cases hf : f a with
  | none => simp
  | some b => simp [Option.filter, h a b hf]

section Sorting

variable [LinearOrder κ]

/-- The list in ascending key order, entries of equal key in their old order. -/
def sortByKey (key : α → κ) (l : List α) : List α :=
  l.insertionSort fun a b ↦ key a ≤ key b

theorem sortByKey_perm (key : α → κ) (l : List α) : (sortByKey key l).Perm l :=
  perm_insertionSort _ l

variable {key : α → κ} {l : List α}

@[simp] theorem mem_sortByKey {a} : a ∈ sortByKey key l ↔ a ∈ l :=
  (sortByKey_perm key l).mem_iff

theorem pairwise_sortByKey (key : α → κ) (l : List α) :
    (sortByKey key l).Pairwise fun a b ↦ key a ≤ key b := by
  exact pairwise_insertionSort _ l

theorem sortByKey_sortByKey (key : α → κ) (l : List α) :
    sortByKey key (sortByKey key l) = sortByKey key l :=
  (pairwise_sortByKey key l).insertionSort_eq

/-- An ordered list of entries whose keys differ is the sorted form of each of its rearrangements.
-/
theorem sortByKey_eq_of_perm {l l' : List α} (h : l.Perm l')
    (hsorted : l'.Pairwise fun a b ↦ key a < key b) : sortByKey key l = l' := by
  refine List.Perm.eq_of_pairwise (fun a b ha hb hab hba ↦ ?_) (pairwise_sortByKey key l)
    (hsorted.imp le_of_lt) ((sortByKey_perm key l).trans h)
  have ha : a ∈ l' := h.mem_iff.mp (mem_sortByKey.mp ha)
  exact eq_of_key_eq (hsorted.imp ne_of_lt) ha hb (le_antisymm hab hba)

/-- A list in key order is the entries below a key, then those at it, then those above. -/
theorem eq_append_of_pairwise_le (h : l.Pairwise fun a b ↦ key a ≤ key b) (k : κ) :
    l = l.filter (key · < k) ++ (l.filter (key · = k) ++ l.filter (k < key ·)) := by
  induction l with
  | nil => rfl
  | cons a l ih =>
    obtain ⟨ha, hl⟩ := pairwise_cons.mp h
    have hbelow (hk : k ≤ key a) : l.filter (key · < k) = [] :=
      filter_eq_nil_iff.mpr fun b hb ↦ by simpa using hk.trans (ha b hb)
    have hat (hk : k < key a) : l.filter (key · = k) = [] :=
      filter_eq_nil_iff.mpr fun b hb ↦ by simpa using (hk.trans_le (ha b hb)).ne'
    rcases lt_trichotomy (key a) k with hlt | rfl | hlt
    · simpa [hlt, hlt.ne, hlt.not_gt] using ih hl
    · have := ih hl
      simpa [hbelow le_rfl] using this
    · have := ih hl
      simpa [hlt, hlt.ne', hlt.not_gt, hbelow hlt.le, hat hlt] using this

/-- The entries after those below a key, up to the last one at the key, are those at the key. -/
theorem drop_take_countP (h : l.Pairwise fun a b ↦ key a ≤ key b) (k : κ) :
    (l.take (l.countP (key · ≤ k))).drop (l.countP (key · < k)) =
      l.filter (key · = k) := by
  have hparts := eq_append_of_pairwise_le h k
  have hupto : l.countP (key · ≤ k) =
      (l.filter (key · < k)).length + (l.filter (key · = k)).length := by
    clear hparts h
    induction l with
    | nil => rfl
    | cons a l ih =>
      simp only [countP_cons, ih]
      rcases lt_trichotomy (key a) k with hlt | rfl | hlt
      · simp [hlt, hlt.le, hlt.ne]
        omega
      · simp
        omega
      · simp [hlt.not_ge, hlt.not_gt, hlt.ne']
  rw [hupto, countP_eq_length_filter]
  generalize l.filter (key · < k) = below at hparts ⊢
  generalize l.filter (key · = k) = at' at hparts ⊢
  rw [hparts, ← append_assoc, ← length_append, take_left, drop_left]

end Sorting

/-- The first two neighbours that satisfy `p`. -/
def findAdjacent (p : α → α → Bool) : List α → Option (α × α)
  | a :: b :: l => if p a b then some (a, b) else findAdjacent p (b :: l)
  | _ => none

/-- Entries that differ pairwise have no neighbours that satisfy `p`. -/
theorem findAdjacent_eq_none (h : l.Pairwise fun a b ↦ ¬p a b) :
    findAdjacent p l = none := by
  induction l with
  | nil => rfl
  | cons a l ih =>
    obtain ⟨ha, hl⟩ := pairwise_cons.mp h
    cases l with
    | nil => rfl
    | cons b l => rw [findAdjacent, if_neg (ha b mem_cons_self), ih hl]

/-- A list in key order with no two neighbours of one key has no two entries of one key. -/
theorem pairwise_lt_of_findAdjacent_eq_none [LinearOrder κ] (hp : ∀ a b, key a = key b → p a b)
    (hsorted : l.Pairwise fun a b ↦ key a ≤ key b) (h : findAdjacent p l = none) :
    l.Pairwise fun a b ↦ key a < key b := by
  induction l with
  | nil => exact .nil
  | cons a l ih =>
    obtain ⟨ha, hl⟩ := pairwise_cons.mp hsorted
    cases l with
    | nil => exact pairwise_singleton _ a
    | cons b l =>
      rw [findAdjacent] at h
      split_ifs at h with hab
      have hrest := ih hl h
      have hlt : key a < key b :=
        lt_of_le_of_ne (ha b mem_cons_self) fun heq ↦ hab (hp a b heq)
      refine pairwise_cons.mpr ⟨fun c hc ↦ ?_, hrest⟩
      rcases mem_cons.mp hc with rfl | hc
      · exact hlt
      · exact hlt.trans ((pairwise_cons.mp hrest).1 c hc)

/-- The length of the longest beginning that satisfies `p`: the partition point of a list whose
entries satisfying `p` all come first. -/
def partitionPoint (p : α → Bool) (l : List α) : ℕ := (l.takeWhile p).length

/-- The position of the entry that compares equal, in a list ordered by the comparison. -/
def binarySearchBy (cmp : α → Ordering) (l : List α) : Option ℕ :=
  let i := partitionPoint (fun a ↦ cmp a == .lt) l
  match l[i]? with
  | some a => if cmp a == .eq then some i else none
  | none => none

/-- A search that finds a position finds an entry that compares equal. -/
theorem exists_of_binarySearchBy_eq_some (h : binarySearchBy cmp l = some i) :
    ∃ a, l[i]? = some a ∧ cmp a = .eq := by
  rw [binarySearchBy] at h
  split at h
  · rename_i a ha
    split_ifs at h with heq
    cases h
    exact ⟨a, ha, by simpa using heq⟩
  · cases h

/-- The partition point counts, when the entries that satisfy `p` come first. -/
theorem partitionPoint_eq_countP {p : α → Bool} (h : l.Pairwise fun a b ↦ p b → p a) :
    partitionPoint p l = l.countP p := by
  rw [partitionPoint]
  induction l with
  | nil => rfl
  | cons a l ih =>
    obtain ⟨ha, hl⟩ := pairwise_cons.mp h
    rw [takeWhile_cons, countP_cons]
    split_ifs with hp
    · rw [length_cons, ih hl]
    · have hnone : l.countP p = 0 := countP_eq_zero.mpr fun b hb hpb ↦ hp (ha b hb hpb)
      rw [hnone]
      rfl

/-- A search finds an entry that compares equal when all entries before it compare less. -/
theorem isSome_binarySearchBy (h : l.Pairwise fun a b ↦ cmp b = .eq → cmp a = .lt) (ha : a ∈ l)
    (heq : cmp a = .eq) :
    (binarySearchBy cmp l).isSome := by
  induction l with
  | nil => cases ha
  | cons b l ih =>
    obtain ⟨hb, hl⟩ := pairwise_cons.mp h
    rcases mem_cons.mp ha with rfl | ha
    · simp [binarySearchBy, partitionPoint, heq]
    · have hrest := ih hl ha
      have hlt : cmp b = .lt := hb a ha heq
      rw [binarySearchBy] at hrest ⊢
      simp only [partitionPoint, takeWhile_cons, hlt, beq_self_eq_true, if_true,
        length_cons, getElem?_cons_succ] at hrest ⊢
      split at hrest
      · split_ifs at hrest ⊢
        · rfl
        · exact hrest
      · cases hrest

/-- A search finds the position of an entry that compares equal. -/
theorem binarySearchBy_eq_some (h : l.Pairwise fun a b ↦ cmp b = .eq → cmp a = .lt)
    (ha : l[i]? = some a) (heq : cmp a = .eq) : binarySearchBy cmp l = some i := by
  obtain ⟨j, hj⟩ := Option.isSome_iff_exists.mp
    (isSome_binarySearchBy h (List.mem_of_getElem? ha) heq)
  obtain ⟨b, hb, hbeq⟩ := exists_of_binarySearchBy_eq_some hj
  obtain ⟨hi, rfl⟩ := List.getElem?_eq_some_iff.mp ha
  obtain ⟨hj', rfl⟩ := List.getElem?_eq_some_iff.mp hb
  rw [List.pairwise_iff_getElem] at h
  rw [hj]
  rcases lt_trichotomy i j with hlt | rfl | hlt
  · have := h i j hi hj' hlt hbeq
    rw [this] at heq
    cases heq
  · rfl
  · have := h j i hj' hi hlt heq
    rw [this] at hbeq
    cases hbeq

section Maps

open Std (ExtTreeMap)

variable {β : Type*} [LinearOrder κ]

theorem ofList_toList (m : ExtTreeMap κ β compare) : ExtTreeMap.ofList m.toList compare = m := by
  refine ExtTreeMap.ext_getElem? fun k ↦ ?_
  cases hk : m[k]? with
  | some v =>
    exact ExtTreeMap.getElem?_ofList_of_mem Std.ReflCmp.compare_self
      ExtTreeMap.distinct_keys_toList (ExtTreeMap.mem_toList_iff_getElem?_eq_some.mpr hk)
  | none =>
    refine ExtTreeMap.getElem?_ofList_of_contains_eq_false ?_
    have hkeys : k ∉ m.toList.map Prod.fst := by
      intro hmem
      obtain ⟨⟨k', v⟩, hkv, rfl⟩ := mem_map.mp hmem
      rw [ExtTreeMap.mem_toList_iff_getElem?_eq_some.mp hkv] at hk
      cases hk
    simpa using hkeys

/-- What is found after a list of insertions was inserted or there before. -/
theorem mem_or_getElem?_of_foldl_insert {l : List (κ × β)} {m : ExtTreeMap κ β compare} {p : κ × β}
    (h : (l.foldl (fun m q ↦ m.insert q.1 q.2) m)[p.1]? = some p.2) :
    p ∈ l ∨ m[p.1]? = some p.2 := by
  induction l generalizing m with
  | nil => exact .inr h
  | cons q l ih =>
    rcases ih h with hmem | hget
    · exact .inl (mem_cons_of_mem q hmem)
    · rw [ExtTreeMap.getElem?_insert] at hget
      split_ifs at hget with hq
      · have hkey : q.1 = p.1 := Std.LawfulEqOrd.eq_of_compare hq
        exact .inl (mem_cons.mpr (.inl (Prod.ext hkey.symm (Option.some.inj hget).symm)))
      · exact .inr hget

/-- The entries of a map are among those it was made of. -/
theorem subperm_toList_ofList (l : List (κ × β)) :
    (ExtTreeMap.ofList l compare).toList.Subperm l := by
  refine subperm_of_subset ?_ fun p hp ↦ ?_
  · refine ExtTreeMap.distinct_keys_toList.imp fun {a b} hne heq ↦ hne ?_
    rw [heq]
    exact Std.ReflCmp.compare_self
  · rw [ExtTreeMap.mem_toList_iff_getElem?_eq_some, ExtTreeMap.ofList_eq_foldl] at hp
    rcases mem_or_getElem?_of_foldl_insert hp with hmem | hget
    · exact hmem
    · simp at hget

end Maps

section Sums

/-- A sum over some of the entries is at most the sum over all of them. -/
theorem sum_map_le_of_subperm {f : α → ℕ} {l l' : List α} (h : l.Subperm l') :
    (l.map f).sum ≤ (l'.map f).sum := by
  obtain ⟨l'', hperm, hsub⟩ := h
  rw [← (hperm.map f).sum_eq]
  exact (hsub.map f).sum_le_sum fun _ _ ↦ Nat.zero_le _

end Sums
