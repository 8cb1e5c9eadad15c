import Maknae.Foundation.PrefixFree
import Mathlib.Data.List.Infix

/-!
# Texts cut at a separator, and canonical path texts

Path policies read a path as text: they cut it at `/` and compare the pieces. This module is that
reading and nothing else. A text is a `String`, and everything is computed on its list of
characters, so that prefixes, suffixes and cuts are the list library's.

* `split` — the pieces between the occurrences of a separator, empty ones included;
* `components` — the non-empty pieces of a path text;
* `IsCanonical` — an absolute path text without a NUL and without an empty, `.` or `..` piece.

The one equation everything rests on is `split_append_sep`: cutting at a separator distributes over
the texts on its two sides. On canonical texts nothing is lost by reading components only
(`IsCanonical.eq_of_components`).
-/

namespace Text

open List

/-! ### Cutting a text at a character -/

/-- The pieces of `s` between the occurrences of `c`, empty pieces included. A text without `c` is
its own single piece. -/
def split (c : Char) (s : String) : List String :=
  (s.toList.splitOn c).map String.ofList

/-- `s` starts with the character `c`. -/
def startsWithChar (c : Char) (s : String) : Bool :=
  s.toList.head? == some c

/-- `s` without its first `n` characters. -/
def drop (n : ℕ) (s : String) : String :=
  String.ofList (s.toList.drop n)

@[simp] theorem toList_drop (n : ℕ) (s : String) : (drop n s).toList = s.toList.drop n :=
  String.toList_ofList

/-- The remainder of `s` after `p`, when `s` starts with `p`. -/
def stripPrefix (p s : String) : Option String :=
  if p.toList.isPrefixOf s.toList then some (drop p.toList.length s) else none

theorem stripPrefix_eq_some {p s rest} :
    stripPrefix p s = some rest ↔ s = p ++ rest := by
  unfold stripPrefix
  constructor
  · intro h
    split_ifs at h with hp
    obtain ⟨t, ht⟩ := isPrefixOf_iff_prefix.mp hp
    cases h
    apply String.toList_inj.mp
    rw [String.toList_append, toList_drop, ← ht, drop_left]
  · rintro rfl
    rw [if_pos ( isPrefixOf_iff_prefix.mpr (by simp))]
    congr 1
    apply String.toList_inj.mp
    simp

/-- **Cutting at a separator distributes over the texts on its two sides.** -/
theorem split_append_sep (c : Char) (a b : String) :
    split c (a ++ String.singleton c ++ b) = split c a ++ split c b := by
  have h := splitOnP_append_cons (p := (· == c)) a.toList b.toList
    (beq_self_eq_true c)
  simp only [split, splitOn, String.toList_append, String.toList_singleton,
    append_assoc, singleton_append, h, map_append]

variable {c : Char} {s : String}

theorem split_eq_singleton (h : c ∉ s.toList) : split c s = [s] := by
  have hs : s.toList.splitOn c = [s.toList] :=
    splitOnP_eq_singleton fun x hx ↦ by
      simpa using fun hxc : x = c ↦ h (hxc ▸ hx)
  simp [split, hs]

theorem not_mem_of_mem_splitOn {α : Type*} [DecidableEq α] {a} {l piece : List α}
    (h : piece ∈ l.splitOn a) : a ∉ piece := by
  induction l generalizing piece with
  | nil =>
    obtain rfl : piece = [] := by simpa [splitOn, splitOnP_nil] using h
    simp
  | cons b l ih =>
    rw [splitOn, splitOnP_cons_eq_if_modifyHead] at h
    split_ifs at h with hb
    · rcases mem_cons.mp h with rfl | h
      · simp
      · exact ih h
    · -- The head piece of the tail's cut grows by `b`; the others stay.
      obtain ⟨first, others, hcut⟩ := exists_cons_of_ne_nil (splitOnP_ne_nil (· == a) l)
      rw [hcut] at h
      have hmem : ∀ p ∈ first :: others, a ∉ p := fun p hp ↦ ih (by rwa [splitOn, hcut])
      rcases mem_cons.mp h with rfl | h
      · have hba : a ≠ b := fun heq ↦ hb (by simp [heq])
        simpa [hba] using hmem first mem_cons_self
      · exact hmem piece (mem_cons_of_mem _ h)

theorem not_mem_of_mem_split {s piece} (h : piece ∈ split c s) :
    c ∉ piece.toList := by
  obtain ⟨chars, hchars, rfl⟩ := mem_map.mp h
  rw [String.toList_ofList]
  exact not_mem_of_mem_splitOn hchars

/-- Cutting undoes joining, for pieces without the separator. -/
theorem split_intercalate {pieces} (hne : pieces ≠ [])
    (h : ∀ p ∈ pieces, c ∉ p.toList) :
    split c ((String.singleton c).intercalate pieces) = pieces := by
  have hcut : (((String.singleton c).intercalate pieces).toList).splitOn c =
      pieces.map String.toList := by
    rw [String.toList_intercalate, String.toList_singleton]
    refine splitOn_intercalate c (fun l hl ↦ ?_) (by simpa using hne)
    obtain ⟨p, hp, rfl⟩ := mem_map.mp hl
    exact h p hp
  rw [split, hcut]
  simp [Function.comp_def]

/-- Joining undoes cutting, so the pieces determine the text. -/
theorem split_injective (c : Char) : Function.Injective (split c) := by
  intro s t h
  have hpieces : s.toList.splitOn c = t.toList.splitOn c :=
    map_injective_iff.mpr (fun _ _ ↦ String.ofList_injective) h
  have hjoin : [c].intercalate (s.toList.splitOn c) = s.toList := intercalate_splitOn c
  rw [← String.toList_inj, ← hjoin, hpieces, intercalate_splitOn]

/-- The first piece of a cut, and the others behind separators. -/
theorem exists_splitOn_cons (c : Char) (s : String) : ∃ x l, s.toList.splitOn c = x :: l ∧
    s.toList = x ++ l.flatMap fun y ↦ c :: y := by
  obtain ⟨x, l, hcut⟩ : ∃ x l, s.toList.splitOn c = x :: l :=
    exists_cons_of_ne_nil (splitOnP_ne_nil (· == c) s.toList)
  refine ⟨x, l, hcut, ?_⟩
  rw [← intercalate_eq_flatMap, ← hcut]
  exact (intercalate_splitOn c).symm

/-- Apart from the separator, the characters of a text are those of its pieces. -/
theorem exists_mem_split_of_mem {c d} (hd : d ∈ s.toList) (hne : d ≠ c) :
    ∃ piece ∈ split c s, d ∈ piece.toList := by
  obtain ⟨x, l, hcut, hjoin⟩ := exists_splitOn_cons c s
  have hpiece : ∃ chars ∈ x :: l, d ∈ chars := by
    rw [hjoin, mem_append, mem_flatMap] at hd
    rcases hd with hd | ⟨y, hy, hd⟩
    · exact ⟨x, mem_cons_self, hd⟩
    · exact ⟨y, mem_cons_of_mem _ hy, (mem_cons.mp hd).resolve_left hne⟩
  obtain ⟨chars, hmem, hd⟩ := hpiece
  exact ⟨String.ofList chars, mem_map_of_mem (hcut.symm ▸ hmem), by
    rwa [String.toList_ofList]⟩

/-! ### Path components -/

/-- The non-empty pieces of a path text. -/
def components (s : String) : List String :=
  (split '/' s).filter (· ≠ "")

/-- A component is not empty and holds no `/`. -/
theorem of_mem_components {s c} (h : c ∈ components s) : c ≠ "" ∧ '/' ∉ c.toList := by
  obtain ⟨hc, hne⟩ := mem_filter.mp h
  exact ⟨by simpa using hne, not_mem_of_mem_split hc⟩

@[simp] theorem components_empty : components "" = [] := by decide

/-- Components below a directory come after the directory's own. -/
theorem components_append_slash (a b : String) :
    components (a ++ "/" ++ b) = components a ++ components b := by
  have h : split '/' (a ++ "/" ++ b) = split '/' a ++ split '/' b := split_append_sep '/' a b
  simp only [components, h, filter_append]

theorem components_slash_append (b : String) : components ("/" ++ b) = components b := by
  have h := components_append_slash "" b
  simpa using h

/-! ### Canonical path texts -/

/-- A piece that names a directory entry: not empty, not `.` and not `..`. -/
def IsEntryName (c : String) : Prop := c ≠ "" ∧ c ≠ "." ∧ c ≠ ".."

instance (c : String) : Decidable (IsEntryName c) :=
  inferInstanceAs (Decidable (_ ∧ _ ∧ _))

/-- The text of an absolute path in canonical form: it starts at the root, has no NUL, and each of
its pieces below the root names an entry. The root itself is canonical. -/
structure IsCanonical (s : String) : Prop where
  /-- The path is absolute. -/
  absolute : startsWithChar '/' s = true
  /-- The path has no NUL character. -/
  no_nul : '\x00' ∉ s.toList
  /-- Below the root, every piece names an entry. -/
  entries : s = "/" ∨ ∀ c ∈ split '/' (drop 1 s), IsEntryName c

instance (s : String) : Decidable (IsCanonical s) :=
  decidable_of_iff
    (startsWithChar '/' s = true ∧ '\x00' ∉ s.toList ∧
      (s = "/" ∨ ∀ c ∈ split '/' (drop 1 s), IsEntryName c))
    ⟨fun ⟨h₁, h₂, h₃⟩ ↦ ⟨h₁, h₂, h₃⟩, fun h ↦ ⟨h.absolute, h.no_nul, h.entries⟩⟩

theorem eq_slash_append_drop (h : startsWithChar '/' s = true) :
    s = "/" ++ drop 1 s := by
  apply String.toList_inj.mp
  rw [String.toList_append, toList_drop]
  cases hs : s.toList with
  | nil => simp [startsWithChar, hs] at h
  | cons c cs =>
    obtain rfl : c = '/' := by simpa [startsWithChar, hs] using h
    rfl

theorem split_ne_nil : split c s ≠ [] := by
  simp [split]

/-- Below the root, the components of a canonical text are its pieces. -/
theorem IsCanonical.components_eq (hs : IsCanonical s) (hroot : s ≠ "/") :
    components s = split '/' (drop 1 s) := by
  have hpieces := hs.entries.resolve_left hroot
  rw [eq_slash_append_drop hs.absolute, components_slash_append, ← eq_slash_append_drop hs.absolute]
  exact filter_eq_self.mpr fun c hc ↦ by simpa using (hpieces c hc).1

/-- **A canonical text is the only one with its components.** -/
theorem IsCanonical.eq_of_components {t} (hs : IsCanonical s) (ht : IsCanonical t)
    (h : components s = components t) : s = t := by
  by_cases hsroot : s = "/" <;> by_cases htroot : t = "/"
  · rw [hsroot, htroot]
  · rw [hsroot, ht.components_eq htroot] at h
    exact absurd h.symm split_ne_nil
  · rw [htroot, hs.components_eq hsroot] at h
    exact absurd h split_ne_nil
  · rw [hs.components_eq hsroot, ht.components_eq htroot] at h
    rw [eq_slash_append_drop hs.absolute, split_injective '/' h, ← eq_slash_append_drop ht.absolute]

end Text
