import Maknae.Foundation.Guards
import Mathlib.Data.List.Basic

/-!
# Codes that can be told from what follows

A code writes a value as a list of symbols. It is **prefix-free** if the value and the rest can be
told from the code with anything after it. Prefix-free codes compose: between fixed symbols
(`PrefixFree.wrap`), and as a list up to a closing symbol (`prefixFree_many`). A code that is only
injective becomes one by its length before it (`prefixFree_sized`).

Numbers in a text are not prefix-free, but what follows them is never a digit. A word is `ToldApart`
from others where what follows starts with a symbol of a given class, and lists of such words are
told apart up to a closing symbol (`separated_inj`).

A code that cannot write every value is `PrefixFreeWhere` it writes. Lists of one length that it
writes can be told apart without closing symbols (`PrefixFreeWhere.mapM`).
-/

open List

variable {α β γ : Type*}

/-- What the code wrote can be told from what follows. -/
def PrefixFree (c : α → List β) : Prop :=
  ∀ ⦃a b⦄ (r s : List β), c a ++ r = c b ++ s → a = b ∧ r = s

namespace PrefixFree

variable {c : α → List β} {d : γ → List β}

theorem comp {f : γ → α} (hc : PrefixFree c) (hf : Function.Injective f) :
    PrefixFree fun x ↦ c (f x) := fun _ _ r s h ↦
  (hc r s h).imp (fun heq ↦ hf heq) id

/-- A code between fixed symbols. -/
theorem wrap (hc : PrefixFree c) (before after : List β) :
    PrefixFree fun a ↦ before ++ (c a ++ after) := by
  intro a b r s h
  simp only [append_assoc] at h
  obtain ⟨rfl, hrest⟩ := hc _ _ (append_cancel_left h)
  exact ⟨rfl, append_cancel_left hrest⟩

end PrefixFree

variable {c : α → List β}

/-- A code with a decoder that hands back the rest. -/
theorem prefixFree_of_decode (decode : List β → Option (α × List β))
    (h : ∀ a r, decode (c a ++ r) = some (a, r)) : PrefixFree c := by
  intro a b r s heq
  have hpair := (h a r).symm.trans ((congrArg decode heq).trans (h b s))
  exact Prod.mk.inj (Option.some.inj hpair)

/-- An injective code behind its length, where the length is written in a fixed width that tells the
lengths of the code words apart. -/
theorem prefixFree_sized (hc : Function.Injective c) {size : ℕ → List β} {w}
    (hw : ∀ n, (size n).length = w)
    (hsize : ∀ a b, size (c a).length = size (c b).length → (c a).length = (c b).length) :
    PrefixFree fun a ↦ size (c a).length ++ c a := by
  intro a b r s h
  simp only [append_assoc] at h
  obtain ⟨hlength, hrest⟩ := append_inj h ((hw _).trans (hw _).symm)
  obtain ⟨hword, hrest⟩ := append_inj hrest (hsize a b hlength)
  exact ⟨hc hword, hrest⟩

/-- Words without the symbols in `q` end where such a symbol follows. -/
theorem append_inj_of_head? {q : β → Prop} {x y r s : List β} (hx : ∀ a ∈ x, ¬q a)
    (hy : ∀ a ∈ y, ¬q a) (hr : ∀ a ∈ r.head?, q a) (hs : ∀ a ∈ s.head?, q a)
    (h : x ++ r = y ++ s) : x = y ∧ r = s := by
  induction x generalizing y with
  | nil =>
    cases y with
    | nil => exact ⟨rfl, h⟩
    | cons b y =>
      obtain rfl : r = b :: (y ++ s) := h
      exact absurd (hr b rfl) (hy b mem_cons_self)
  | cons a x ih =>
    cases y with
    | nil =>
      obtain rfl : a :: (x ++ r) = s := h
      exact absurd (hs a rfl) (hx a mem_cons_self)
    | cons b y =>
      obtain ⟨rfl, htail⟩ := cons.inj h
      obtain ⟨rfl, hrest⟩ := ih (fun a ha ↦ hx a (mem_cons_of_mem _ ha))
        (fun a ha ↦ hy a (mem_cons_of_mem _ ha)) htail
      exact ⟨rfl, hrest⟩

/-- The code starts with a symbol other than the closing one. -/
def StartsBeside (close : β) (l : List β) : Prop := ∃ x rest, l = x :: rest ∧ x ≠ close

/-- A list of codes, up to a closing symbol that no code starts with. -/
theorem prefixFree_many (hc : PrefixFree c) {close} (hstart : ∀ a, StartsBeside close (c a)) :
    PrefixFree fun l : List α ↦ l.flatMap c ++ [close] := by
  intro l
  induction l with
  | nil =>
    rintro (_ | ⟨b, l'⟩) r s h
    · exact ⟨rfl, (cons.inj h).2⟩
    · obtain ⟨x, rest, hx, hne⟩ := hstart b
      dsimp only at h
      rw [flatMap_cons, hx] at h
      exact absurd (cons.inj h).1.symm hne
  | cons a l ih =>
    rintro (_ | ⟨b, l'⟩) r s h
    · obtain ⟨x, rest, hx, hne⟩ := hstart a
      dsimp only at h
      rw [flatMap_cons, hx] at h
      exact absurd (cons.inj h).1 hne
    · simp only [flatMap_cons, append_assoc] at h
      obtain ⟨rfl, hrest⟩ := hc _ _ h
      obtain ⟨rfl, hrest'⟩ := ih r s (by simpa using hrest)
      exact ⟨rfl, hrest'⟩

/-- The items with a separator between them. -/
theorem intercalate_eq_flatMap (sep : β) (x : List β) (l : List (List β)) :
    [sep].intercalate (x :: l) = x ++ l.flatMap fun y ↦ sep :: y := by
  induction l generalizing x with
  | nil => simp [intercalate]
  | cons y l ih =>
    rw [intercalate, intersperse_cons_cons, flatten_cons, flatten_cons,
      ← intercalate, ih]
    rfl

/-! ### Codes that are told apart before certain symbols -/

/-- The word of `a` can be told from the words of the values in `P`, where what follows is empty or
starts with a symbol in `q`. -/
def ToldApart (q : β → Prop) (P : α → Prop) (c : α → List β) (a : α) : Prop :=
  ∀ ⦃b⦄ ⦃r s : List β⦄, P b → (∀ x ∈ r.head?, q x) → (∀ x ∈ s.head?, q x) → c a ++ r = c b ++ s →
    a = b ∧ r = s

section Separated

variable {q : β → Prop} {P : α → Prop} {c : α → List β} {sep close : β}

variable {r s : List β} {l l' : List α}

/-- Words each behind a separator, up to a closing symbol. -/
theorem flatMap_sep_inj (hsep : q sep) (hclose : q close) (hne : sep ≠ close)
    (hl : ∀ a ∈ l, ToldApart q P c a) (hl' : ∀ b ∈ l', P b)
    (h : l.flatMap (fun a ↦ sep :: c a) ++ close :: r =
      l'.flatMap (fun a ↦ sep :: c a) ++ close :: s) :
    l = l' ∧ r = s := by
  induction l generalizing l' with
  | nil =>
    cases l' with
    | nil => exact ⟨rfl, (cons.inj h).2⟩
    | cons b l' => exact absurd (cons.inj h).1.symm hne
  | cons a l ih =>
    cases l' with
    | nil => exact absurd (cons.inj h).1 hne
    | cons b l' =>
      obtain ⟨ha, htold⟩ := forall_mem_cons.mp hl
      obtain ⟨hb, hin⟩ := forall_mem_cons.mp hl'
      have hfollows (m : List α) (t : List β) :
          ∀ x ∈ (m.flatMap (fun a ↦ sep :: c a) ++ close :: t).head?, q x := by
        cases m with
        | nil => rintro x ⟨⟩; exact hclose
        | cons d m => rintro x ⟨⟩; exact hsep
      simp only [flatMap_cons, append_assoc] at h
      obtain ⟨rfl, hrest⟩ := ha hb (hfollows _ _) (hfollows _ _) (cons.inj h).2
      obtain ⟨rfl, hend⟩ := ih htold hin hrest
      exact ⟨rfl, hend⟩

/-- **Words with separators between them**, up to a closing symbol that no word starts with. -/
theorem separated_inj (hsep : q sep) (hclose : q close) (hne : sep ≠ close)
    (hl : ∀ a ∈ l, ToldApart q P c a) (hl' : ∀ b ∈ l', P b)
    (hstart : ∀ a, (a ∈ l ∨ a ∈ l') → StartsBeside close (c a))
    (h : [sep].intercalate (l.map c) ++ close :: r = [sep].intercalate (l'.map c) ++ close :: s) :
    l = l' ∧ r = s := by
  have hcons (a : α) (l : List α) : [sep].intercalate ((a :: l).map c) =
      c a ++ l.flatMap fun b ↦ sep :: c b := by
    rw [map_cons, intercalate_eq_flatMap, flatMap_map]
  cases l with
  | nil =>
    cases l' with
    | nil => exact ⟨rfl, (cons.inj h).2⟩
    | cons b l' =>
      obtain ⟨x, rest, hx, hbeside⟩ := hstart b (.inr mem_cons_self)
      rw [hcons, hx] at h
      exact absurd (cons.inj h).1.symm hbeside
  | cons a l =>
    cases l' with
    | nil =>
      obtain ⟨x, rest, hx, hbeside⟩ := hstart a (.inl mem_cons_self)
      rw [hcons, hx] at h
      exact absurd (cons.inj h).1 hbeside
    | cons b l' =>
      -- after the first word comes a list of words each behind its separator
      have hbehind : (a :: l).flatMap (fun a ↦ sep :: c a) ++ close :: r =
          (b :: l').flatMap (fun a ↦ sep :: c a) ++ close :: s := by
        rw [hcons, hcons] at h
        rw [flatMap_cons, flatMap_cons, cons_append, cons_append,
          cons_append,
          cons_append, h]
      exact flatMap_sep_inj hsep hclose hne hl hl' hbehind

end Separated

/-! ### Codes that cannot write every value -/

section Fallible

variable {ε α β : Type*}

/-- What the code wrote, where it wrote at all, can be told from what follows. -/
def PrefixFreeWhere (c : α → Except ε (List β)) : Prop :=
  ∀ ⦃a b : α⦄ ⦃x y : List β⦄ (r s : List β), c a = .ok x → c b = .ok y → x ++ r = y ++ s →
    a = b ∧ r = s

/-- A list of known length, one code after another. -/
theorem PrefixFreeWhere.mapM {c : α → Except ε (List β)} (hc : PrefixFreeWhere c) {l l' : List α}
    {xs ys : List (List β)} {r s : List β} (hlength : l.length = l'.length)
    (hxs : l.mapM c = .ok xs)
    (hys : l'.mapM c = .ok ys) (h : xs.flatten ++ r = ys.flatten ++ s) : l = l' ∧ r = s := by
  induction l generalizing l' xs ys with
  | nil =>
    obtain rfl := length_eq_zero_iff.mp hlength.symm
    rw [mapM_nil, Except.pure_eq_ok] at hxs hys
    subst hxs hys
    exact ⟨rfl, h⟩
  | cons a l ih =>
    obtain ⟨b, l', rfl⟩ := exists_cons_of_length_eq_add_one hlength.symm
    rw [mapM_cons] at hxs hys
    obtain ⟨x, hx, xs', hxs', hxs⟩ := Except.bind₂_eq_ok.mp hxs
    obtain ⟨y, hy, ys', hys', hys⟩ := Except.bind₂_eq_ok.mp hys
    obtain rfl := Except.pure_eq_ok.mp hxs
    obtain rfl := Except.pure_eq_ok.mp hys
    rw [flatten_cons, flatten_cons, append_assoc, append_assoc] at h
    obtain ⟨rfl, hrest⟩ := hc _ _ hx hy h
    obtain ⟨rfl, hrest⟩ := ih (Nat.succ.inj hlength) hxs' hys' hrest
    exact ⟨rfl, hrest⟩

end Fallible
