import Maknae.Foundation.Guards
import Mathlib.Data.List.Basic

/-!
# Maps checked member by member

A check of a map goes over its members in key order, computes a value from each and files it under
the member's own key. What the checked map holds is said by `checkAll_eq_ok`, one key at a time.
-/

namespace Std.ExtTreeMap

open Except

universe u

variable {ε : Type u} {κ α β : Type} [Ord κ] [TransOrd κ] [LawfulEqOrd κ]

/-- A map after an insertion, with the keys compared by equality. -/
theorem getElem?_insert_ite [DecidableEq κ] (m : ExtTreeMap κ α compare) (k n : κ) (a : α) :
    (m.insert k a)[n]? = if n = k then some a else m[n]? := by
  rw [getElem?_insert]
  split_ifs with heq hnk hnk
  · rfl
  · exact absurd (LawfulEqOrd.eq_of_compare heq).symm hnk
  · exact absurd (hnk ▸ ReflCmp.compare_self) heq
  · rfl

/-- File the checked value of a member under its key. -/
def fileChecked (f : κ → α → Except ε β) (out : ExtTreeMap κ β compare) (member : κ × α) :
    Except ε (ExtTreeMap κ β compare) := do
  return out.insert member.1 (← f member.1 member.2)

variable {f : κ → α → Except ε β}

theorem foldlM_fileChecked {l : List (κ × α)} (hl : l.Pairwise fun a b ↦ a.1 ≠ b.1)
    {acc out : ExtTreeMap κ β compare} (h : l.foldlM (fileChecked f) acc = .ok out) (k : κ) :
    (∀ a, (k, a) ∈ l → ∃ b, f k a = .ok b ∧ out[k]? = some b) ∧
      ((∀ a, (k, a) ∉ l) → out[k]? = acc[k]?) := by
  induction l generalizing acc with
  | nil =>
    obtain rfl := pure_eq_ok.mp h
    exact ⟨nofun, fun _ ↦ rfl⟩
  | cons m l ih =>
    obtain ⟨hm, hl⟩ := List.pairwise_cons.mp hl
    obtain ⟨acc', hacc', h⟩ := bind_eq_ok.mp h
    obtain ⟨b, hb, hacc'⟩ := bind_eq_ok.mp hacc'
    obtain rfl := pure_eq_ok.mp hacc'
    obtain ⟨hmem, hnot⟩ := ih hl h
    refine ⟨fun a ha ↦ ?_, fun hall ↦ ?_⟩
    · rcases List.mem_cons.mp ha with rfl | ha
      · have hrest : ∀ a', (k, a') ∉ l := fun a' ha' ↦ hm _ ha' rfl
        exact ⟨b, hb, by rw [hnot hrest, getElem?_insert_self]⟩
      · exact hmem a ha
    · have hne : m.1 ≠ k := by
        rintro rfl
        exact hall m.2 List.mem_cons_self
      rw [hnot fun a ha ↦ hall a (List.mem_cons_of_mem m ha), getElem?_insert,
        if_neg fun heq ↦ hne (LawfulEqOrd.eq_of_compare heq)]

/-- Check every member of a map. -/
def checkAll (f : κ → α → Except ε β) (m : ExtTreeMap κ α compare) :
    Except ε (ExtTreeMap κ β compare) :=
  m.toList.foldlM (fileChecked f) ∅

/-- **What a checked map holds**: at every key the value computed from the member there. -/
theorem checkAll_eq_ok {m : ExtTreeMap κ α compare} {out : ExtTreeMap κ β compare}
    (h : checkAll f m = .ok out) (k : κ) :
    (∃ a b, m[k]? = some a ∧ f k a = .ok b ∧ out[k]? = some b) ∨
      m[k]? = none ∧ out[k]? = none := by
  have hdistinct : m.toList.Pairwise fun a b ↦ a.1 ≠ b.1 := by
    refine distinct_keys_toList.imp fun {a b} hne heq ↦ hne ?_
    rw [heq]
    exact ReflCmp.compare_self
  obtain ⟨hmem, hnot⟩ := foldlM_fileChecked hdistinct h k
  cases hk : m[k]? with
  | some a =>
    obtain ⟨b, hb, hout⟩ := hmem a (mem_toList_iff_getElem?_eq_some.mpr hk)
    exact .inl ⟨a, b, rfl, hb, hout⟩
  | none =>
    have hnone : ∀ a, (k, a) ∉ m.toList := fun a ha ↦ by
      rw [mem_toList_iff_getElem?_eq_some, hk] at ha
      cases ha
    exact .inr ⟨rfl, by rw [hnot hnone, getElem?_empty]⟩

end Std.ExtTreeMap
