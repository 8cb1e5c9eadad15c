import Mathlib.Data.List.Basic
import Mathlib.Data.List.Forall2
import Mathlib.Data.List.Infix

/-!
# The language of a star pattern, and leftmost search

A star pattern is a list over an alphabet with one distinguished letter, the star, which stands for
any list; every other letter stands for itself. `WildMatch star` is that language, given by the four
ways a letter of the pattern can be spent.

Matchers do not walk the pattern letter by letter. They cut it at the stars into fragments and look
for the fragments in order, each at its **leftmost** position. This module proves once why that is
enough:

* `wildMatch_intercalate` — the language in terms of fragments: the first one at the start, the
  others after gaps (`Gapped`), the last one at the end;
* `Gapped.of_suffix` — more text before the first gap never hurts;
* `gapped_cons_iff_find` — hence taking the leftmost occurrence never loses a match.

The language is also given without steps. `Pieces R pattern text` cuts the text into one piece for
each letter of the pattern, and `wildMatch_iff_pieces` is that a star takes any piece and another
letter its own.

Everything is over an arbitrary alphabet with decidable equality.
-/

variable {α : Type*}

/-! ### The language -/

/-- `WildMatch star pattern text`: the text is in the language of the pattern. A star is dropped, or
absorbs one letter and stays; any other letter is spent on its own occurrence. -/
inductive WildMatch (star : α) : List α → List α → Prop
  | nil : WildMatch star [] []
  | drop {pattern text} : WildMatch star pattern text → WildMatch star (star :: pattern) text
  | absorb {pattern text} (a : α) :
      WildMatch star (star :: pattern) text → WildMatch star (star :: pattern) (a :: text)
  | letter {pattern text} {a : α} :
      a ≠ star → WildMatch star pattern text → WildMatch star (a :: pattern) (a :: text)

namespace WildMatch

open List

variable {star : α} {pattern text : List α}

/-- Every pattern matches its own text: a star absorbs the star that stands there. -/
theorem self (star : α) (pattern : List α) : WildMatch star pattern pattern := by
  induction pattern with
  | nil => exact nil
  | cons a pattern ih =>
    by_cases ha : a = star
    · subst ha
      exact absorb a (drop ih)
    · exact letter ha ih

theorem eq_of_not_mem (h : star ∉ pattern) (hm : WildMatch star pattern text) :
    text = pattern := by
  induction hm with
  | nil => rfl
  | drop _ _ | absorb _ _ _ => simp at h
  | letter _ _ ih => rw [ih (not_mem_of_not_mem_cons h)]

/-- A star at the head absorbs any list before what the rest of the pattern matches. -/
theorem star_cons_iff :
    WildMatch star (star :: pattern) text ↔
      ∃ skipped rest, text = skipped ++ rest ∧ WildMatch star pattern rest := by
  constructor
  · intro h
    generalize hp : star :: pattern = p at h
    induction h with
    | nil => cases hp
    | drop h _ =>
      cases hp
      exact ⟨[], _, rfl, h⟩
    | absorb a _ ih =>
      obtain ⟨skipped, rest, rfl, hr⟩ := ih hp
      exact ⟨a :: skipped, rest, rfl, hr⟩
    | letter ha _ _ => exact absurd (cons.inj hp).1.symm ha
  · rintro ⟨skipped, rest, rfl, h⟩
    induction skipped with
    | nil => exact drop h
    | cons a _ ih => exact absorb a ih

/-- A fragment without a star is spent on its own text, letter by letter. -/
theorem append_iff {frag : List α} (h : star ∉ frag) :
    WildMatch star (frag ++ pattern) text ↔
      ∃ rest, text = frag ++ rest ∧ WildMatch star pattern rest := by
  induction frag generalizing text with
  | nil => simp
  | cons a frag ih =>
    have ha : a ≠ star := fun heq ↦ h (heq ▸ mem_cons_self)
    have hfrag := not_mem_of_not_mem_cons h
    constructor
    · rintro (_ | _ | _ | ⟨-, hm⟩)
      · exact absurd rfl ha
      · exact absurd rfl ha
      · obtain ⟨rest, rfl, hr⟩ := (ih hfrag).mp hm
        exact ⟨rest, rfl, hr⟩
    · rintro ⟨rest, rfl, hr⟩
      exact letter ha ((ih hfrag).mpr ⟨rest, rfl, hr⟩)

end WildMatch

/-! ### A piece for each letter -/

section Pieces

variable {β : Type*} {R : β → List α → Prop}

/-- The text is cut into pieces, one for each letter of the pattern and related to it. -/
def Pieces (R : β → List α → Prop) (pattern : List β) (text : List α) : Prop :=
  ∃ parts, List.Forall₂ R pattern parts ∧ text = parts.flatten

theorem pieces_nil {text : List α} : Pieces R [] text ↔ text = [] := by
  constructor
  · rintro ⟨parts, hparts, rfl⟩
    rw [List.forall₂_nil_left_iff.mp hparts, List.flatten_nil]
  · rintro rfl
    exact ⟨[], .nil, rfl⟩

theorem pieces_cons {b} {pattern : List β} {text : List α} :
    Pieces R (b :: pattern) text ↔
      ∃ part rest, text = part ++ rest ∧ R b part ∧ Pieces R pattern rest := by
  constructor
  · rintro ⟨parts, hparts, rfl⟩
    obtain ⟨part, rest, hpart, hrest, rfl⟩ := List.forall₂_cons_left_iff.mp hparts
    exact ⟨part, rest.flatten, List.flatten_cons, hpart, rest, hrest, rfl⟩
  · rintro ⟨part, rest, rfl, hpart, parts, hparts, rfl⟩
    exact ⟨part :: parts, .cons hpart hparts, List.flatten_cons.symm⟩

/-- **The language without steps**: replace each star by any list. -/
theorem wildMatch_iff_pieces {star} {pattern text : List α} :
    WildMatch star pattern text ↔ Pieces (fun a part ↦ a ≠ star → part = [a]) pattern text := by
  induction pattern generalizing text with
  | nil =>
    rw [pieces_nil]
    constructor
    · rintro ⟨⟩
      rfl
    · rintro rfl
      exact .nil
  | cons a pattern ih =>
    rw [pieces_cons]
    by_cases ha : a = star
    · subst ha
      rw [WildMatch.star_cons_iff]
      simp only [ih, ne_eq, not_true_eq_false, IsEmpty.forall_iff, true_and]
    · have hone : star ∉ [a] := fun h ↦ ha (List.mem_singleton.mp h).symm
      show WildMatch star ([a] ++ pattern) text ↔ _
      rw [WildMatch.append_iff hone]
      constructor
      · rintro ⟨rest, rfl, hrest⟩
        exact ⟨[a], rest, rfl, fun _ ↦ rfl, ih.mp hrest⟩
      · rintro ⟨part, rest, rfl, hpart, hrest⟩
        exact ⟨rest, by rw [hpart ha], ih.mpr hrest⟩

end Pieces

/-! ### Fragments after gaps -/

/-- The fragments stand in the text in order, with any gap before each of them, and nothing after
the last. -/
def Gapped : List (List α) → List α → Prop
  | [], text => text = []
  | frag :: frags, text => ∃ skipped rest, text = skipped ++ (frag ++ rest) ∧ Gapped frags rest

variable {text : List α} {frags : List (List α)}

/-- **The language in fragments.** Cut at its stars, a pattern matches a text exactly when the first
fragment starts the text and the others follow after gaps. -/
theorem wildMatch_intercalate {star} {frag : List α} (h : ∀ f ∈ frag :: frags, star ∉ f) :
    WildMatch star ([star].intercalate (frag :: frags)) text ↔
      ∃ rest, text = frag ++ rest ∧ Gapped frags rest := by
  induction frags generalizing frag text with
  | nil =>
    have hf : star ∉ frag := h frag List.mem_cons_self
    have hnil : ∀ rest : List α, WildMatch star [] rest ↔ rest = [] :=
      fun rest ↦ ⟨fun hm ↦ by cases hm; rfl, fun hr ↦ by subst hr; exact .nil⟩
    simpa [Gapped, hnil] using @WildMatch.append_iff _ _ [] text _ hf
  | cons frag' frags ih =>
    have hf : star ∉ frag := h frag List.mem_cons_self
    have hcut : [star].intercalate (frag :: frag' :: frags) =
        frag ++ (star :: [star].intercalate (frag' :: frags)) := by
      simp [List.intercalate]
    rw [hcut, WildMatch.append_iff hf]
    refine exists_congr fun rest ↦ and_congr_right fun _ ↦ ?_
    rw [WildMatch.star_cons_iff]
    constructor
    · rintro ⟨skipped, tail, rfl, hm⟩
      obtain ⟨rest', rfl, hg⟩ := (ih fun f hf' ↦ h f (List.mem_cons_of_mem _ hf')).mp hm
      exact ⟨skipped, rest', rfl, hg⟩
    · rintro ⟨skipped, rest', rfl, hg⟩
      exact ⟨skipped, frag' ++ rest', rfl,
        (ih fun f hf' ↦ h f (List.mem_cons_of_mem _ hf')).mpr ⟨rest', rfl, hg⟩⟩

/-- More text in front only widens the first gap. -/
theorem Gapped.of_suffix {text text' : List α} (hne : frags ≠ []) (h : Gapped frags text)
    (hs : text <:+ text') : Gapped frags text' := by
  cases frags with
  | nil => exact absurd rfl hne
  | cons frag frags =>
    obtain ⟨front, rfl⟩ := hs
    obtain ⟨skipped, rest, rfl, hg⟩ := h
    exact ⟨front ++ skipped, rest, by simp, hg⟩

theorem gapped_singleton {frag text : List α} : Gapped [frag] text ↔ frag <:+ text := by
  constructor
  · rintro ⟨skipped, rest, rfl, rfl⟩
    exact ⟨skipped, by simp⟩
  · rintro ⟨skipped, rfl⟩
    exact ⟨skipped, [], by simp, rfl⟩

/-- An empty fragment before others is no constraint: two gaps in a row are one. -/
theorem gapped_nil_cons (hne : frags ≠ []) :
    Gapped ([] :: frags) text ↔ Gapped frags text := by
  constructor
  · rintro ⟨skipped, rest, rfl, hg⟩
    exact hg.of_suffix hne ⟨skipped, by simp⟩
  · intro hg
    exact ⟨[], text, by simp, hg⟩

/-! ### Leftmost search -/

section Find

variable [DecidableEq α]

/-- The offset of the leftmost occurrence of a fragment in a text. -/
def findSub (frag : List α) : List α → Option ℕ
  | [] => if frag = [] then some 0 else none
  | a :: text => if frag.isPrefixOf (a :: text) then some 0 else (findSub frag text).map (· + 1)

theorem append_of_findSub {frag text : List α} {offset} (h : findSub frag text = some offset) :
    text = text.take offset ++ (frag ++ text.drop (offset + frag.length)) := by
  induction text generalizing offset with
  | nil =>
    obtain ⟨rfl, rfl⟩ : frag = [] ∧ 0 = offset := by simpa [findSub] using h
    rfl
  | cons a text ih =>
    rw [findSub] at h
    split_ifs at h with hp
    · cases h
      obtain ⟨rest, hrest⟩ := List.isPrefixOf_iff_prefix.mp hp
      simp [← hrest]
    · obtain ⟨offset', ho, rfl⟩ := Option.map_eq_some_iff.mp h
      have hstep := ih ho
      rw [Nat.add_right_comm, List.take_succ_cons, List.drop_succ_cons, List.cons_append, ← hstep]

/-- Any occurrence is found, and what follows it is a suffix of what follows the leftmost one. -/
theorem exists_findSub {frag skipped rest : List α} :
    ∃ offset, findSub frag (skipped ++ (frag ++ rest)) = some offset ∧
      rest <:+ (skipped ++ (frag ++ rest)).drop (offset + frag.length) := by
  induction skipped with
  | nil =>
    refine ⟨0, ?_, by simp⟩
    cases hf : frag ++ rest with
    | nil => simp_all [findSub]
    | cons a text =>
      have hp : frag.isPrefixOf (a :: text) := by
        rw [List.isPrefixOf_iff_prefix, ← hf]
        exact List.prefix_append _ _
      simp [findSub, hp]
  | cons a skipped ih =>
    obtain ⟨offset, ho, hs⟩ := ih
    by_cases hp : frag.isPrefixOf (a :: (skipped ++ (frag ++ rest)))
    · refine ⟨0, by simp [findSub, hp], ?_⟩
      -- The leftmost occurrence starts here, so the later text is a suffix for length reasons.
      refine List.suffix_of_suffix_length_le (?_ : rest <:+ a :: skipped ++ (frag ++ rest)) ?_ ?_
      · exact ⟨a :: skipped ++ frag, by simp⟩
      · exact List.drop_suffix _ _
      · simp only [List.length_drop, List.length_append]
        omega
    · refine ⟨offset + 1, by simp [findSub, hp, ho], ?_⟩
      rwa [Nat.add_right_comm, List.cons_append, List.drop_succ_cons]

/-- **Leftmost is enough.** When more fragments follow, a fragment can be taken at its leftmost
occurrence without losing a match. -/
theorem gapped_cons_iff_find {frag : List α} {frags : List (List α)} {text : List α}
    (hne : frags ≠ []) :
    Gapped (frag :: frags) text ↔
      ∃ offset, findSub frag text = some offset ∧
        Gapped frags (text.drop (offset + frag.length)) := by
  constructor
  · rintro ⟨skipped, rest, rfl, hg⟩
    obtain ⟨offset, ho, hs⟩ := @exists_findSub _ _ frag skipped rest
    exact ⟨offset, ho, hg.of_suffix hne hs⟩
  · rintro ⟨offset, ho, hg⟩
    exact ⟨text.take offset, text.drop (offset + frag.length), append_of_findSub ho, hg⟩

end Find
