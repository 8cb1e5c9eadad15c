import Mathlib.Data.List.Forall2

/-!
# What a successful guard sequence establishes

Fallible code is a sequence of guards in `Except`. These lemmas turn "the sequence succeeded" into
the facts its guards checked, one `obtain` per step, so that no proof about such code unfolds the
monad.
-/

section Forall₂

variable {γ δ : Type*} {R : γ → δ → Prop} {l : List γ} {l' : List δ}

theorem List.forall_mem_concat {p : γ → Prop} {a} :
    (∀ x ∈ l ++ [a], p x) ↔ (∀ x ∈ l, p x) ∧ p a := by
  rw [forall_mem_append, forall_mem_singleton]

theorem List.Forall₂.exists_mem_left (h : List.Forall₂ R l l') {b} (hb : b ∈ l') :
    ∃ a ∈ l, R a b := by
  induction h with
  | nil => exact nomatch hb
  | @cons a c l l' hac _ ih =>
    rcases mem_cons.mp hb with rfl | hb
    · exact ⟨a, mem_cons_self, hac⟩
    · obtain ⟨a', ha', hR⟩ := ih hb
      exact ⟨a', mem_cons_of_mem a ha', hR⟩

theorem List.Forall₂.exists_mem_right (h : List.Forall₂ R l l') {a} (ha : a ∈ l) :
    ∃ b ∈ l', R a b :=
  (@List.Forall₂.flip _ _ (Function.swap R) _ _ h).exists_mem_left ha

end Forall₂

namespace Except

open List

universe u v

variable {ε : Type u} {α β : Type v}

variable {b : β} {x : Except ε α} {e : ε} {a : α} {c : Prop} {γ : Type*} {out : List β}
  {f : γ → Except ε β}

/-- A sequence succeeds exactly when each of its steps does. -/
theorem bind_eq_ok {f : α → Except ε β} :
    (x >>= f) = .ok b ↔ ∃ a, x = .ok a ∧ f a = .ok b := by
  cases x with
  | error e | ok a => simp [bind, Except.bind]

/-- The same for two steps before the rest. -/
theorem bind₂_eq_ok {γ : Type v} {c : γ} {f : α → Except ε β} {g : α → β → Except ε γ} :
    (x >>= fun a ↦ f a >>= g a) = .ok c ↔
      ∃ a, x = .ok a ∧ ∃ b, f a = .ok b ∧ g a b = .ok c := by
  simp only [bind_eq_ok]

/-- The same for three. -/
theorem bind₃_eq_ok {γ δ : Type v} {d : δ} {f : α → Except ε β} {g : α → β → Except ε γ}
    {k : α → β → γ → Except ε δ} :
    (x >>= fun a ↦ f a >>= fun b ↦ g a b >>= k a b) = .ok d ↔
      ∃ a, x = .ok a ∧ ∃ b, f a = .ok b ∧ ∃ c, g a b = .ok c ∧ k a b c = .ok d := by
  simp only [bind_eq_ok]

/-- A refusal ends a sequence. -/
@[simp] theorem error_bind {f : α → Except ε β} :
    (Except.error e >>= f) = Except.error e := rfl

/-- A success hands its value on. -/
@[simp] theorem ok_bind {f : α → Except ε β} : (Except.ok a >>= f) = f a := rfl

@[simp] theorem pure_eq_ok {a b} : (pure a : Except ε α) = .ok b ↔ a = b := by
  simp [pure, Except.pure]

/-- A sequence that ends by handing a value on. -/
theorem bind_pure_eq_ok {f : α → β} :
    (x >>= fun a ↦ pure (f a)) = .ok b ↔ ∃ a, x = .ok a ∧ f a = b := by
  simp only [bind_eq_ok, pure_eq_ok]

theorem eq_ok_of_toOption (h : x.toOption = some a) : x = .ok a := by
  cases x with
  | error e => cases h
  | ok b => exact congrArg _ (Option.some.inj h)

theorem exists_eq_ok_of_isOk (h : x.isOk = true) : ∃ a, x = .ok a := by
  cases x with
  | error e => cases h
  | ok a => exact ⟨a, rfl⟩

/-- A guard: it refuses when the condition holds. -/
def refuseIf (c : Prop) [Decidable c] (e : ε) : Except ε PUnit := if c then .error e else .ok ⟨⟩

@[simp] theorem refuseIf_eq_ok [Decidable c] :
    refuseIf c e = .ok ⟨⟩ ↔ ¬c := by
  by_cases h : c <;> simp [refuseIf]

theorem refuseIf_bind_eq_ok [Decidable c] {f : PUnit → Except ε β} :
    (refuseIf c e >>= f) = .ok b ↔ ¬c ∧ f ⟨⟩ = .ok b := by
  rw [bind_eq_ok, ← refuseIf_eq_ok]
  exact ⟨fun ⟨_, hc, hf⟩ ↦ ⟨hc, hf⟩, fun ⟨hc, hf⟩ ↦ ⟨_, hc, hf⟩⟩

/-- Other words for a refusal change nothing for what succeeds. -/
theorem mapError_eq_ok_iff {ε' : Type*} {f : ε → ε'} :
    x.mapError f = .ok a ↔ x = .ok a := by
  cases x <;> simp [Except.mapError]

/-- A check over a list succeeds exactly when it does on every entry. -/
theorem forM_eq_ok {f : γ → Except ε PUnit} {l : List γ} :
    l.forM f = .ok ⟨⟩ ↔ ∀ a ∈ l, f a = .ok ⟨⟩ := by
  induction l with
  | nil => simp [List.forM]
  | cons a l ih =>
    rw [forall_mem_cons, ← ih]
    show (f a >>= fun _ ↦ l.forM f) = _ ↔ _
    rw [bind_eq_ok]
    exact ⟨fun ⟨_, ha, hl⟩ ↦ ⟨ha, hl⟩, fun ⟨ha, hl⟩ ↦ ⟨_, ha, hl⟩⟩

/-- What each step of a fold keeps, the fold keeps. -/
theorem foldlM_invariant {σ γ : Type v} {f : σ → γ → Except ε σ} {P : σ → Prop}
    (hstep : ∀ s a s', P s → f s a = .ok s' → P s') {l : List γ} {s s'} (hs : P s)
    (h : l.foldlM f s = .ok s') : P s' := by
  induction l generalizing s with
  | nil =>
    obtain rfl := pure_eq_ok.mp h
    exact hs
  | cons a l ih =>
    obtain ⟨t, ht, h⟩ := bind_eq_ok.mp h
    exact ih (hstep s a t hs ht) h

theorem exists_of_mem_foldlM {σ γ : Type v} {f : σ → γ → Except ε σ} {l : List γ} {s s'}
    (h : l.foldlM f s = .ok s') {a} (ha : a ∈ l) : ∃ t t', f t a = .ok t' := by
  induction l generalizing s with
  | nil => cases ha
  | cons b l ih =>
    obtain ⟨t, ht, hrest⟩ := bind_eq_ok.mp h
    rcases mem_cons.mp ha with rfl | ha
    · exact ⟨s, t, ht⟩
    · exact ih hrest ha

theorem mapM_eq_ok {l : List γ} :
    l.mapM f = .ok out ↔ List.Forall₂ (fun a b ↦ f a = .ok b) l out := by
  induction l generalizing out with
  | nil => rw [mapM_nil, pure_eq_ok, forall₂_nil_left_iff, eq_comm]
  | cons a l ih =>
    rw [mapM_cons, forall₂_cons_left_iff]
    simp only [bind_eq_ok, pure_eq_ok, ih]
    exact ⟨fun ⟨b, hb, bs, hbs, heq⟩ ↦ ⟨b, bs, hb, hbs, heq.symm⟩,
      fun ⟨b, bs, hb, hbs, heq⟩ ↦ ⟨b, hb, bs, hbs, heq.symm⟩⟩

/-- Every result of a successful traversal is the result of some entry. -/
theorem exists_of_mem_mapM {l : List γ} (h : l.mapM f = .ok out) (hb : b ∈ out) :
    ∃ a ∈ l, f a = .ok b :=
  (mapM_eq_ok.mp h).exists_mem_left hb

/-- A traversal that succeeds and one that drops failures agree, if they compute alike. -/
theorem filterMap_eq_of_mapM {g : γ → Option β} (hfg : ∀ a b, f a = .ok b → g a = some b)
    {l : List γ} (h : l.mapM f = .ok out) : l.filterMap g = out := by
  induction mapM_eq_ok.mp h with
  | nil => rfl
  | @cons a b l out hb hl ih =>
    rw [filterMap_cons_some (hfg a b hb), ih (mapM_eq_ok.mpr hl)]

theorem mapM_eq_ok_map {g : γ → β} {l : List γ} (h : ∀ a ∈ l, f a = .ok (g a)) :
    l.mapM f = .ok (l.map g) :=
  mapM_eq_ok.mpr (forall₂_map_right_iff.mpr (forall₂_same.mpr h))

theorem exists_mapM_eq_ok {l : List γ} :
    (∃ out, l.mapM f = .ok out) ↔ ∀ a ∈ l, ∃ b, f a = .ok b := by
  induction l with
  | nil => simp [mapM_nil]
  | cons a l ih =>
    rw [forall_mem_cons, ← ih]
    simp only [mapM_cons, bind_eq_ok]
    constructor
    · rintro ⟨out, b, hb, bs, hbs, -⟩
      exact ⟨⟨b, hb⟩, bs, hbs⟩
    · rintro ⟨⟨b, hb⟩, bs, hbs⟩
      exact ⟨b :: bs, b, hb, bs, hbs, rfl⟩

end Except
